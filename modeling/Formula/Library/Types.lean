import Formula.Environment
/-!
The types of the standard library: truth values, integers, real and complex numbers, each by plain
values in the mode `normal` and, but for complex numbers, by ranges in the mode `interval`.
-/

namespace Formula.Library

/-- A primitive type of the values of one kind. -/
def primitiveType (name : String) (initial : Value) : ConcreteType.Parts :=
  { name, isPrimitive := true, initial? := some initial,
    accepts? := some fun v => v.kind == initial.kind }

/-- A type of the values of one kind that may be overwritten in place. -/
def placedType (name : String) (initial : Value) : ConcreteType.Parts :=
  { name, initial? := some initial, accepts? := some fun v => v.kind == initial.kind,
    copyOver? := some fun v _ => v }

/-- Whether a value is an interval between integers, or an undefined one. -/
def isIntegerInterval : Value → Bool
  | .interval a => !a.isDefined || (a.lo.fract.eq 0 && a.hi.fract.eq 0)
  | _ => false

/-- Why a value is not an interval between integers. -/
def integerIntervalComplaint (v : Value) : Option String :=
  match v with
  | .interval a =>
    if a.isDefined && (a.lo.fract.ne 0 || a.hi.fract.ne 0) then
      some ("interval " ++ v.text ++ " has non-integer bounds")
    else none
  | _ => some ("expected an integer interval, found " ++ v.kind.text ++ " " ++ v.text)

/-- The concrete types. -/
def concreteTypes : List ConcreteType.Parts :=
  [ primitiveType "bool" (.bool false),
    primitiveType "int" (.int 0),
    primitiveType "real" (.real 0),
    placedType "complex" (.complex ⟨0, 0⟩),
    placedType "interval_bool" (.boolInterval (.point false)),
    { placedType "interval_int" (.interval .zero) with
      accepts? := some isIntegerInterval, explain? := some integerIntervalComplaint },
    placedType "interval_real" (.interval .zero) ]

/-- The mathematical types, with the modes and names of their representations. -/
def mathTypes : List (String × List (Mode × String)) :=
  [ ("bool", [(Mode.normal, "bool"), (Mode.interval, "interval_bool")]),
    ("int", [(Mode.normal, "int"), (Mode.interval, "interval_int")]),
    ("real", [(Mode.normal, "real"), (Mode.interval, "interval_real")]),
    ("complex", [(Mode.normal, "complex")]) ]

/-- Registers the types. -/
def installTypes : Registration Unit := do
  let built ← concreteTypes.mapM Registration.buildConcreteType
  built.forM fun c => discard (Registration.registerConcreteType c)
  mathTypes.forM fun t => discard (Registration.defineMathType t.1 t.2)

end Formula.Library
