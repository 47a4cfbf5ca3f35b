import Formula.Evaluator.Basic
import Formula.Types.Registry
/-!
Descriptions of evaluators by the names of their types, put together step by step and built once the
types are known.
-/

namespace Formula.Evaluator

/-- A description of an evaluator. -/
structure Spec where
  arguments : List String
  result : String
  delivery : Delivery := .fresh
  isIdentity : Bool := false
  token : Option String := none
  function : Option Function := none

namespace Spec

/-- Asks for a way of delivery. -/
def delivered (s : Spec) (delivery : Delivery) : Spec :=
  { s with delivery }

/-- Asks for a copy of the argument. -/
def identity (s : Spec) : Spec :=
  { s with isIdentity := true }

/-- Asks for what a token stands for. -/
def primitive (s : Spec) (token : String) : Spec :=
  { s with token := some token }

/-- Gives a function, and with it the way of delivery. -/
def computedBy (s : Spec) (f : Function) : Spec :=
  { s with delivery := f.delivery, function := some f }

/-- Words an error about a type that is not known. -/
def unknown {α : Type} (what : String) : Except Error α → Except Error α
  | .ok x => .ok x
  | .error e => .error (.construction ("unknown " ++ what ++ " type: " ++ e.message))

/-- Builds the evaluator. -/
def build (s : Spec) (types : TypeRegistry) : Except Error Evaluator := do
  let arguments ← unknown "argument" (s.arguments.mapM types.concreteType)
  let result ← unknown "return" (types.concreteType s.result)
  Evaluator.build arguments result s.delivery s.isIdentity s.token s.function

end Spec

end Formula.Evaluator
