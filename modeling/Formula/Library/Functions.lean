import Formula.Evaluator.Spec
import Formula.Value.Lenient
/-!
Functions on argument values from functions on numbers. Each takes the first arguments and leaves
the others.
-/

namespace Formula.Function

/-- A new value from one argument. -/
def fresh₁ (f : Value → Value) : Function :=
  .fresh fun
    | a :: _ => f a
    | _ => default

/-- A new value from two arguments. -/
def fresh₂ (f : Value → Value → Value) : Function :=
  .fresh fun
    | a :: b :: _ => f a b
    | _ => default

/-- A new value from three arguments. -/
def fresh₃ (f : Value → Value → Value → Value) : Function :=
  .fresh fun
    | a :: b :: c :: _ => f a b c
    | _ => default

/-- A value from one argument, written to a place. -/
def inPlace₁ (f : Value → Value) : Function :=
  .inPlace fun args place =>
    match args with
    | a :: _ => place.write (f a)
    | _ => place

/-- A value from two arguments, written to a place. -/
def inPlace₂ (f : Value → Value → Value) : Function :=
  .inPlace fun args place =>
    match args with
    | a :: b :: _ => place.write (f a b)
    | _ => place

/-- A function on real numbers. -/
def real (f : Double → Double) : Function :=
  fresh₁ fun a => .real (f a.toReal)

/-- A function from complex to real numbers. -/
def part (f : Complex → Double) : Function :=
  fresh₁ fun a => .real (f a.toComplex)

/-- A function on pairs of complex numbers. -/
def complexPair (f : Complex → Complex → Complex) : Function :=
  inPlace₂ fun a b => .complex (f a.toComplex b.toComplex)

/-- A function on intervals. -/
def interval (f : Interval Double → Interval Double) : Function :=
  inPlace₁ fun a => .interval (f a.toInterval)

/-- A function on pairs of intervals. -/
def intervalPair (f : Interval Double → Interval Double → Interval Double) : Function :=
  inPlace₂ fun a b => .interval (f a.toInterval b.toInterval)

/-- A comparison of intervals. -/
def intervalComparison (f : Interval Double → Interval Double → BoolInterval) : Function :=
  inPlace₂ fun a b => .boolInterval (f a.toInterval b.toInterval)

end Formula.Function
