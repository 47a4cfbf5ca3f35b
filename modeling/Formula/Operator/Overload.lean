import Formula.Cast
/-!
Overloads of operators: the mathematical types of the arguments and of the result, with an evaluator
for each mode that can compute it.
-/

namespace Formula

/-- An overload of an operator. -/
structure Overload where
  name : String
  arguments : List MathType
  result : MathType
  evaluators : Directory Evaluator := .empty
  /-- Its place among the overloads of the operator. -/
  rank : Nat := 0

namespace Overload

/-- How many arguments an overload takes. -/
def arity (o : Overload) : Nat :=
  o.arguments.length

/-- The name and types of an overload. -/
def signature (o : Overload) : String :=
  o.name ++ Evaluator.arrow (o.arguments.map (·.name)) o.result.name

/-- The evaluator for a mode. -/
def evaluator? (o : Overload) (mode : Mode) : Option Evaluator :=
  o.evaluators.get? mode

/-- Checks that a concrete type is the representation of a mathematical one. -/
def checkType (o : Overload) (mode : Mode) (e : Evaluator) (t : MathType) (c : ConcreteType) :
    Except Error Unit :=
  match t.representation? mode with
  | none => .error (.construction ("type " ++ t.name ++ " has no " ++ mode ++
      " representation, needed by " ++ o.signature))
  | some known =>
    if known.name = c.name then .ok ()
    else .error (.construction (mode ++ " evaluator " ++ e.signature ++ " does not represent " ++
      o.signature))

/-- Attaches the evaluator for a mode, whose types must be the representations of those of the
overload. -/
def attach (o : Overload) (mode : Mode) (e : Evaluator) : Except Error Overload := do
  if e.arity ≠ o.arity then
    throw (.construction (mode ++ " evaluator " ++ e.signature ++ " has the wrong arity for " ++
      o.signature))
  ((o.arguments ++ [o.result]).zip (e.arguments ++ [e.result])).forM fun p =>
    o.checkType mode e p.1 p.2
  pure { o with evaluators := o.evaluators.insert mode e }

/-- How each argument reaches the type it is declared with, if all do. -/
def casts? (o : Overload) (arguments : List MathType) (casts : CastRegistry) :
    Option (List (Cast MathCast)) :=
  if arguments.length = o.arguments.length then
    (arguments.zip o.arguments).mapM fun p => casts.mathCast? p.1 p.2
  else none

/-- A description of an overload by the names of its types. -/
structure Spec where
  name : String
  arguments : List String
  result : String
  evaluators : List (Mode × Evaluator.Spec) := []

namespace Spec

/-- Adds the description of the evaluator for a mode. -/
def evaluated (s : Spec) (mode : Mode) (e : Evaluator.Spec) : Spec :=
  { s with evaluators := s.evaluators ++ [(mode, e)] }

/-- Builds the overload. -/
def build (s : Spec) (types : TypeRegistry) : Except Error Overload := do
  let arguments ← s.arguments.mapM types.mathType
  let result ← types.mathType s.result
  s.evaluators.foldlM (fun o e => do o.attach e.1 (← e.2.build types))
    { name := s.name, arguments, result }

end Spec

end Overload

end Formula
