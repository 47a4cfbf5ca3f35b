import Formula.Environment
import Formula.Library.Functions
/-!
The conversions of the standard library. An integer counts as a real number, and both as complex
numbers; a plain value is lifted to the range that holds it alone.
-/

namespace Formula.Library

/-- The conversions between mathematical types. -/
def mathCasts : List (String × String) :=
  [("int", "real"), ("int", "complex"), ("real", "complex")]

/-- A conversion by a function. -/
def castBy (source target : String) (f : Function) : Evaluator.Spec :=
  { arguments := [source], result := target : Evaluator.Spec }.computedBy f

/-- The conversions between concrete types, first those within a mode. -/
def concreteCasts : List Evaluator.Spec :=
  [ castBy "int" "real" (.fresh₁ fun a => .real a.toReal),
    castBy "int" "complex" (.fresh₁ fun a => .complex a.toComplex),
    castBy "real" "complex" (.fresh₁ fun a => .complex a.toComplex),
    ({ arguments := ["interval_int"], result := "interval_real" : Evaluator.Spec }
      |>.identity |>.delivered .inPlace),
    castBy "bool" "interval_bool" (.inPlace₁ fun a => .boolInterval (.point a.toBool)),
    castBy "int" "interval_int" (.inPlace₁ fun a => .interval (.point (.ofInt a.toInt.toInt))),
    castBy "real" "interval_real" (.inPlace₁ fun a => .interval (.point a.toReal)) ]

/-- Registers the conversions. -/
def installCasts : Registration Unit := do
  mathCasts.forM fun c => discard (Registration.defineMathCast c.1 c.2)
  concreteCasts.forM fun s => discard (Registration.defineConcreteCast s)

end Formula.Library
