import Formula.Value.Basic
/-!
Reading a value as if it were of a given kind. What a value of another kind reads as is undefined:
the number that is none, zero, false or the undefined interval.
-/

namespace Formula.Value

/-- A number as a double. -/
def toReal (v : Value) : Double :=
  v.number?.getD (.notNumber false)

/-- An integer. -/
def toInt (v : Value) : Int64 :=
  v.int?.getD 0

/-- A truth value. -/
def toBool (v : Value) : Bool :=
  v.bool?.getD false

/-- A complex number, or a number on the real axis. -/
def toComplex (v : Value) : Complex :=
  v.complex?.getD ⟨v.toReal, 0⟩

/-- An interval. -/
def toInterval (v : Value) : Interval Double :=
  v.interval?.getD .undefined

end Formula.Value
