import Formula.Error
import Formula.Value.Text
/-!
Concrete types: the values by which a type is represented in one mode, with the functions that make,
check and copy them.
-/

namespace Formula

/-- A concrete type. A primitive one is replaced as a whole when computed; the values of another may
be overwritten in place. -/
structure ConcreteType where
  name : String
  isPrimitive : Bool
  /-- The value that a fresh place holds. -/
  initial : Value
  /-- Whether a value belongs to the type. -/
  accepts : Value → Bool
  /-- Why a value does not belong to the type, if the type has words of its own for it. -/
  explain? : Option (Value → Option String)
  /-- A copy of a value. -/
  copy : Value → Value
  /-- What a place holds after a value, the first argument, is copied over what it held. -/
  copyOver? : Option (Value → Value → Value)
  /-- Tells one definition from every other, even of the same name. -/
  stamp : Nat

namespace ConcreteType

/-- Why a value does not belong to the type; nothing if it does. -/
def complaint (t : ConcreteType) (v : Value) : Option String :=
  match t.explain? with
  | some explain => explain v
  | none =>
    if t.accepts v then none
    else some ("expected " ++ t.name ++ ", found " ++ v.kind.text ++ " value " ++ v.text)

/-- Whether two types come from one definition. -/
def sameDefinition (t u : ConcreteType) : Bool :=
  t.name == u.name && t.isPrimitive == u.isPrimitive && t.stamp == u.stamp

/-- The parts of a concrete type, of which some may be missing. -/
structure Parts where
  name : String
  isPrimitive : Bool := false
  initial? : Option Value := none
  accepts? : Option (Value → Bool) := none
  explain? : Option (Value → Option String) := none
  copy? : Option (Value → Value) := none
  copyOver? : Option (Value → Value → Value) := none

/-- Builds a type: it needs an initial value that it accepts, and a way to copy into a place unless
it is primitive. -/
def Parts.build (p : Parts) (stamp : Nat) : Except Error ConcreteType :=
  match p.initial?, p.accepts? with
  | none, _ =>
    .error (.construction ("no default initializer provided for concrete type " ++ p.name))
  | some _, none => .error (.construction ("no typecheck provided for concrete type " ++ p.name))
  | some initial, some accepts =>
    if !p.isPrimitive && p.copyOver?.isNone then
      .error (.construction ("non-primitive concrete type " ++ p.name ++ " must provide copy_to"))
    else if !accepts initial then
      .error (.construction ("default value " ++ initial.text ++ " of concrete type " ++ p.name ++
        " fails its own typecheck"))
    else .ok {
      name := p.name
      isPrimitive := p.isPrimitive
      initial
      accepts
      explain? := p.explain?
      copy := p.copy?.getD id
      copyOver? := p.copyOver?
      stamp }

end ConcreteType

end Formula
