import Formula.Operator.Registry
/-!
Expressions: trees of operators over variables and constants, with groups where the author wrote
parentheses. Each node has a place for its type and each operator one for its overload; both are
empty in an expression as written, and filled in when its types are resolved.
-/

namespace Formula

/-- What is known of the type of a node. -/
inductive TypeSlot where
  /-- Nothing yet. -/
  | pending
  /-- The type. -/
  | resolved (type : MathType)
  /-- There is none, for a fault here or below. -/
  | unresolved

/-- The type, if it is known. -/
def TypeSlot.type? : TypeSlot → Option MathType
  | resolved t => some t
  | _ => none

/-- An expression. A constant names its type, and may have a text that it is shown by. -/
inductive Expr where
  | group (slot : TypeSlot) (children : List Expr)
  | var (slot : TypeSlot) (name : String)
  | const (slot : TypeSlot) (value : Value) (typeName : String) (text : Option String)
  | op (slot : TypeSlot) (name : String) (children : List Expr)
      (resolution : Option Resolution)

namespace Expr

instance : Inhabited Expr := ⟨var .pending ""⟩

/-- What is known of the type of an expression. -/
def slot : Expr → TypeSlot
  | group s _ => s
  | var s _ => s
  | const s _ _ _ => s
  | op s _ _ _ => s

/-- The type of an expression, if it is known. -/
def type? (e : Expr) : Option MathType :=
  e.slot.type?

/-- The overload chosen for an operator, if one is. -/
def resolution? : Expr → Option Resolution
  | op _ _ _ r => r
  | _ => none

/-- The expressions directly below. -/
def children : Expr → List Expr
  | group _ cs => cs
  | op _ _ cs _ => cs
  | _ => []

mutual

/-- The expression as written, without types and overloads. -/
def bare : Expr → Expr
  | group _ cs => group .pending (bareAll cs)
  | var _ name => var .pending name
  | const _ value typeName text => const .pending value typeName text
  | op _ name cs _ => op .pending name (bareAll cs) none

/-- Each expression as written. -/
def bareAll : List Expr → List Expr
  | [] => []
  | e :: es => bare e :: bareAll es

end

end Expr

end Formula
