import Formula.Environment
import Formula.Interval.Arithmetic
import Formula.Library.Functions
import Formula.Power
/-!
The operators of the standard library. Overloads for narrower types come first, so that of two that
are equally near the narrower one is chosen.
-/

namespace Formula.Library

/-- An overload on arguments of some types, without evaluators. -/
def overload (name : String) (arguments : List String) (result : String) : Overload.Spec :=
  { name, arguments, result }

/-- The name of the representation of a type in the mode `interval`. -/
def ranged (name : String) : String :=
  "interval_" ++ name

/-- The description of the evaluator of an overload in the mode `normal`. -/
def plainSpec (s : Overload.Spec) : Evaluator.Spec :=
  { arguments := s.arguments, result := s.result }

/-- The description of the evaluator of an overload in the mode `interval`. -/
def rangedSpec (s : Overload.Spec) : Evaluator.Spec :=
  { arguments := s.arguments.map ranged, result := ranged s.result }

/-- Evaluates plain values by the operation with a sign. -/
def withToken (s : Overload.Spec) (token : String) : Overload.Spec :=
  s.evaluated Mode.normal ((plainSpec s).primitive token)

/-- Evaluates plain values by a function. -/
def withPlain (s : Overload.Spec) (f : Function) : Overload.Spec :=
  s.evaluated Mode.normal ((plainSpec s).computedBy f)

/-- Evaluates ranges by a function. -/
def withRanged (s : Overload.Spec) (f : Function) : Overload.Spec :=
  s.evaluated Mode.interval ((rangedSpec s).computedBy f)

/-- The sign, interval operation and complex operation of a binary operator. -/
structure Arithmetic where
  token : String
  onIntervals : Interval Double → Interval Double → Interval Double
  onComplex : Complex → Complex → Complex

/-- The operators that integers have too. -/
def ring : List Arithmetic :=
  [⟨"+", .add, .add⟩, ⟨"-", .sub, .sub⟩, ⟨"*", .mul, .mul⟩]

/-- The operators that real and complex numbers have. -/
def field : List Arithmetic :=
  ring ++ [⟨"/", .div, .div⟩]

/-- An operator on integers. -/
def onInts (a : Arithmetic) : Overload.Spec :=
  withRanged (withToken (overload a.token ["int", "int"] "int") a.token)
    (.intervalPair a.onIntervals)

/-- An operator on real numbers. -/
def onReals (a : Arithmetic) : Overload.Spec :=
  withRanged (withToken (overload a.token ["real", "real"] "real") a.token)
    (.intervalPair a.onIntervals)

/-- An operator on complex numbers. -/
def onComplexes (a : Arithmetic) : Overload.Spec :=
  withPlain (overload a.token ["complex", "complex"] "complex") (.complexPair a.onComplex)

/-- The minus before one operand. -/
def negations : List Overload.Spec :=
  [ withRanged (withToken (overload "-" ["int"] "int") "-") (.interval .neg),
    withRanged (withToken (overload "-" ["real"] "real") "-") (.interval .neg),
    withPlain (overload "-" ["complex"] "complex")
      (.inPlace₁ fun a => .complex a.toComplex.neg) ]

/-- The power of a real number with an integer exponent: by multiplication if the exponent fits in
32 bits. -/
def realIntPower (base : Double) (exponent : Int64) : Double :=
  let n := exponent.toInt
  if Int32.minValue.toInt ≤ n ∧ n ≤ Int32.maxValue.toInt then realPower base n
  else base.pow (.ofInt n)

/-- The powers. With an integer exponent they can be taken of ranges. -/
def powers : List Overload.Spec :=
  [ withRanged
      (withPlain (overload "^" ["int", "int"] "int")
        (.fresh₂ fun a b => .int (truncatedPower a.toInt b.toInt)))
      (.intervalPair .intPow),
    withRanged
      (withPlain (overload "^" ["real", "int"] "real")
        (.fresh₂ fun a b => .real (realIntPower a.toReal b.toInt)))
      (.intervalPair .pow),
    withPlain (overload "^" ["real", "real"] "real")
      (.fresh₂ fun a b => .real (a.toReal.pow b.toReal)),
    withPlain (overload "^" ["complex", "complex"] "complex") (.complexPair .pow) ]

/-- The operators of arithmetic. -/
def arithmeticOperators : List Overload.Spec :=
  ring.map onInts ++ field.flatMap (fun a => [onReals a, onComplexes a]) ++ negations ++ powers

/-- A comparison of real numbers. -/
def comparison (token : String) : Overload.Spec :=
  withToken (overload token ["real", "real"] "bool") token

/-- A connective of truth values. -/
def connective (token : String) : Overload.Spec :=
  withToken (overload token ["bool", "bool"] "bool") token

/-- The comparisons and the operators of logic. -/
def logicOperators : List Overload.Spec :=
  [ withRanged (comparison "<") (.intervalComparison Interval.less),
    comparison "<=",
    withRanged (comparison ">") (.intervalComparison Interval.greater),
    comparison ">=",
    comparison "==",
    comparison "!=",
    connective "&&",
    connective "||",
    withToken (overload "!" ["bool"] "bool") "!" ]

/-- A function of a real number. -/
def realFunction (name : String) (f : Double → Double) : Overload.Spec :=
  withPlain (overload name ["real"] "real") (.real f)

/-- A real part of a complex number. -/
def complexPart (name : String) (f : Complex → Double) : Overload.Spec :=
  withPlain (overload name ["complex"] "real") (.part f)

/-- The functions called by name. -/
def namedFunctions : List Overload.Spec :=
  [ realFunction "sin" Double.sin,
    realFunction "cos" Double.cos,
    realFunction "tan" Double.tan,
    withRanged (realFunction "exp" Double.exp) (.interval .exp),
    withRanged (realFunction "ln" Double.ln) (.interval .ln),
    withRanged (realFunction "sqrt" Double.sqrt) (.interval .sqrt),
    withRanged (realFunction "abs" Double.abs) (.interval .abs),
    withPlain (overload "complex" ["real", "real"] "complex")
      (.inPlace₂ fun a b => .complex ⟨a.toReal, b.toReal⟩),
    complexPart "re" Complex.re,
    complexPart "im" Complex.im,
    complexPart "abs" Complex.norm,
    complexPart "arg" Complex.arg,
    withPlain (overload "ifelse" ["bool", "real", "real"] "real")
      (.fresh₃ fun c a b => if c.toBool then a else b) ]

/-- Registers overloads in turn. -/
def installOverloads (overloads : List Overload.Spec) : Registration Unit :=
  overloads.forM fun s => discard (Registration.defineOverload s)

end Formula.Library
