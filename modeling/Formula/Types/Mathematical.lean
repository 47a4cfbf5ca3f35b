import Formula.Config
import Formula.Directory
import Formula.Types.Concrete
/-!
Mathematical types: kinds of quantity such as `real`, apart from how a mode represents them.
-/

namespace Formula

/-- A mathematical type, with a concrete type for each mode that represents it. Two of them are the
same type if their names are equal. -/
structure MathType where
  name : String
  representations : Directory ConcreteType := .empty

namespace MathType

/-- The concrete type that represents the type in a mode. -/
def representation? (t : MathType) (mode : Mode) : Option ConcreteType :=
  t.representations.get? mode

/-- Gives the type a representation in a mode. -/
def represent (t : MathType) (mode : Mode) (c : ConcreteType) : MathType :=
  { t with representations := t.representations.insert mode c }

/-- The modes of a type and the names of its representations. -/
def outline (t : MathType) : List (Mode × String) :=
  t.representations.entries.map fun r => (r.1, r.2.name)

/-- Whether two types have one name and, mode by mode, representations of one name. -/
def sameDefinition (t u : MathType) : Bool :=
  t.name == u.name && t.outline == u.outline

end MathType

end Formula
