import Formula.Evaluator.Spec
/-!
Implicit conversions. Those between mathematical types say which overloads can be reached; those
between concrete types move values from one representation to another. From a type to itself there
is always the identity; conversions are never chained.
-/

namespace Formula

/-- How one type is reached from another. -/
inductive Cast (α : Type) where
  /-- The types are the same. -/
  | identity
  /-- By a conversion. -/
  | convert (conversion : α)

namespace Cast

variable {α : Type}

/-- Whether nothing has to be done. -/
def isIdentity : Cast α → Bool
  | identity => true
  | convert _ => false

/-- The conversion, if there is one. -/
def conversion? : Cast α → Option α
  | identity => none
  | convert c => some c

/-- The text of a cast. -/
def text (describe : α → String) : Cast α → String
  | identity => "identity"
  | convert c => describe c

/-- How many casts of a list are conversions. -/
def distance (casts : List (Cast α)) : Nat :=
  casts.countP (!·.isIdentity)

end Cast

/-- An arrow between two names. -/
def arrowText (source target : String) : String :=
  source ++ "->" ++ target

/-- A conversion between mathematical types. -/
structure MathCast where
  source : MathType
  target : MathType
  name : String

/-- The conversion between two mathematical types, named after them. -/
def MathCast.between (source target : MathType) : MathCast :=
  { source, target, name := arrowText source.name target.name }

/-- A conversion between concrete types: an evaluator of one argument. -/
structure ConcreteCast where
  evaluator : Evaluator
  source : ConcreteType
  arguments_eq : evaluator.arguments = [source]

namespace ConcreteCast

/-- The conversion that an evaluator of one argument makes. -/
def ofEvaluator (e : Evaluator) : Except Error ConcreteCast :=
  match h : e.arguments with
  | [source] => .ok ⟨e, source, h⟩
  | _ => .error (.construction
      ("a concrete cast takes exactly one argument, not " ++ toString e.arity))

/-- The type converted to. -/
def target (c : ConcreteCast) : ConcreteType :=
  c.evaluator.result

/-- The text of a conversion. -/
def text (c : ConcreteCast) : String :=
  arrowText c.source.name c.target.name

/-- Converts a value. -/
def apply (c : ConcreteCast) (v : Value) : Value :=
  c.evaluator.call [v]

/-- What a place holds after a converted value is put there. -/
def applyInto (c : ConcreteCast) (v place : Value) : Value :=
  c.evaluator.callInto [v] place

end ConcreteCast

/-- What a value becomes along a cast. -/
def Cast.carry (c : Cast ConcreteCast) (v : Value) : Value :=
  match c with
  | identity => v
  | convert c => c.apply v

/-- The known conversions, by source and target. -/
structure CastRegistry where
  mathematical : Directory (Directory MathCast) := .empty
  concrete : Directory (Directory ConcreteCast) := .empty

namespace CastRegistry

variable {α : Type}

/-- Enters a conversion under its source and target. -/
def enter (d : Directory (Directory α)) (source target : String) (c : α) :
    Directory (Directory α) :=
  d.insert source (((d.get? source).getD .empty).insert target c)

/-- The conversion entered under a source and a target. -/
def find? (d : Directory (Directory α)) (source target : String) : Option α :=
  (d.get? source).bind (·.get? target)

/-- All conversions entered. -/
def listed (d : Directory (Directory α)) : List α :=
  d.values.flatMap (·.values)

/-- Registers a conversion between mathematical types, in place of an earlier one. -/
def registerMath (r : CastRegistry) (c : MathCast) : Except Error CastRegistry :=
  if c.source.name = c.target.name then
    .error (.registration ("cast " ++ c.name ++ " maps a type onto itself"))
  else .ok { r with mathematical := enter r.mathematical c.source.name c.target.name c }

/-- Registers a conversion between concrete types, in place of an earlier one. -/
def registerConcrete (r : CastRegistry) (c : ConcreteCast) : Except Error CastRegistry :=
  if c.source.name = c.target.name then
    .error (.registration ("concrete cast " ++ c.text ++ " maps a type onto itself"))
  else .ok { r with concrete := enter r.concrete c.source.name c.target.name c }

/-- How one mathematical type is reached from another. -/
def mathCast? (r : CastRegistry) (source target : MathType) : Option (Cast MathCast) :=
  if source.name = target.name then some .identity
  else (find? r.mathematical source.name target.name).map .convert

/-- How one concrete type is reached from another. -/
def concreteCast? (r : CastRegistry) (source target : ConcreteType) :
    Option (Cast ConcreteCast) :=
  if source.name = target.name then some .identity
  else (find? r.concrete source.name target.name).map .convert

end CastRegistry

end Formula
