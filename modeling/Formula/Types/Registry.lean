import Formula.Text.Distance
import Formula.Types.Mathematical
/-!
The types that are known by name. Entries are never changed: to register a type again is to get the
entry back, and another type of the same name is refused.
-/

namespace Formula

/-- The known types. -/
structure TypeRegistry where
  mathematical : Directory MathType := .empty
  concrete : Directory ConcreteType := .empty

namespace TypeRegistry

/-- The mathematical type `name`. -/
def mathType (r : TypeRegistry) (name : String) : Except Error MathType :=
  match r.mathematical.get? name with
  | some t => .ok t
  | none => .error (.unknownType name (Text.suggestion? name r.mathematical.names))

/-- The concrete type `name`. -/
def concreteType (r : TypeRegistry) (name : String) : Except Error ConcreteType :=
  match r.concrete.get? name with
  | some c => .ok c
  | none => .error (.unknownType name (Text.suggestion? name r.concrete.names))

/-- Registers a concrete type. -/
def registerConcrete (r : TypeRegistry) (c : ConcreteType) :
    Except Error (ConcreteType × TypeRegistry) :=
  match r.concrete.get? c.name with
  | some known =>
    if known.sameDefinition c then .ok (known, r)
    else .error (.registration
      ("concrete type `" ++ c.name ++ "` is already registered with a different definition"))
  | none => .ok (c, { r with concrete := r.concrete.insert c.name c })

/-- Whether a representation of a type is the concrete type registered under its name. -/
def checkRepresentation (r : TypeRegistry) (t : MathType) (mode : Mode) (c : ConcreteType) :
    Except Error Unit := do
  let known ← r.concreteType c.name
  if known.sameDefinition c then pure ()
  else throw (.registration ("type `" ++ t.name ++
    "` uses an unregistered variant of concrete type `" ++ c.name ++ "` in mode " ++ mode))

/-- Registers a mathematical type, whose representations must be registered. -/
def registerMath (r : TypeRegistry) (t : MathType) : Except Error (MathType × TypeRegistry) := do
  t.representations.entries.forM fun e => r.checkRepresentation t e.1 e.2
  match r.mathematical.get? t.name with
  | some known =>
    if known.sameDefinition t then pure (known, r)
    else throw (.registration
      ("type `" ++ t.name ++ "` is already registered with different representations"))
  | none => pure (t, { r with mathematical := r.mathematical.insert t.name t })

/-- Registers a mathematical type by the modes and names of its representations. -/
def defineMath (r : TypeRegistry) (name : String) (representations : List (Mode × String)) :
    Except Error (MathType × TypeRegistry) := do
  let t ← representations.foldlM (fun (t : MathType) e => do
    pure (t.represent e.1 (← r.concreteType e.2))) { name }
  r.registerMath t

end TypeRegistry

end Formula
