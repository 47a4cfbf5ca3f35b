import Formula.Operator.Overload
/-!
The overloads of each operator, and the choice among them: the overload that is reached with the
fewest conversions, and of several the one registered first.
-/

namespace Formula

/-- The overload chosen for some arguments, with the cast of each and the number of conversions. -/
structure Resolution where
  overload : Overload
  casts : List (Cast MathCast)
  distance : Nat

/-- The overloads of each operator, in the order of their registration. -/
structure OperatorRegistry where
  overloads : Directory (List Overload) := .empty

namespace OperatorRegistry

/-- The overloads of an operator. -/
def candidates (r : OperatorRegistry) (name : String) : List Overload :=
  (r.overloads.get? name).getD []

/-- Whether an operator has an overload. -/
def contains (r : OperatorRegistry) (name : String) : Bool :=
  !(r.candidates name).isEmpty

/-- The names of the operators, in order. -/
def names (r : OperatorRegistry) : List String :=
  r.overloads.names

/-- Registers an overload behind those of its name. -/
def register (r : OperatorRegistry) (o : Overload) : Overload × OperatorRegistry :=
  let known := r.candidates o.name
  let o := { o with rank := known.length }
  (o, { overloads := r.overloads.insert o.name (known ++ [o]) })

/-- What choosing an overload for some arguments leads to. -/
def resolutionOf? (arguments : List MathType) (casts : CastRegistry) (o : Overload) :
    Option Resolution :=
  (o.casts? arguments casts).map fun cs =>
    { overload := o, casts := cs, distance := Cast.distance cs }

/-- Whether the best choice so far needs no more conversions than a later one. -/
def standsAgainst (best? : Option Resolution) (new : Resolution) : Bool :=
  best?.any fun best => best.distance ≤ new.distance

/-- The best choice among some overloads and the best one so far. A choice without conversions ends
the search. -/
def search (arguments : List MathType) (casts : CastRegistry) :
    Option Resolution → List Overload → Option Resolution
  | best?, [] => best?
  | best?, o :: overloads =>
    match resolutionOf? arguments casts o with
    | none => search arguments casts best? overloads
    | some new =>
      if standsAgainst best? new then search arguments casts best? overloads
      else if new.distance = 0 then some new
      else search arguments casts (some new) overloads

/-- The best choice among some overloads. -/
def best? (arguments : List MathType) (casts : CastRegistry) (overloads : List Overload) :
    Option Resolution :=
  search arguments casts none overloads

/-- Chooses the overload of an operator for some arguments. -/
def resolve (r : OperatorRegistry) (casts : CastRegistry) (name : String)
    (arguments : List MathType) : Except Error Resolution :=
  match r.candidates name with
  | [] => .error (.unknownOperator name (Text.suggestion? name r.names))
  | overloads =>
    match best? arguments casts overloads with
    | some resolution => .ok resolution
    | none => .error (.noViableOverload name (arguments.map (·.name))
        (some ("candidates are " ++ ", ".intercalate (overloads.map (·.signature)))))

end OperatorRegistry

end Formula
