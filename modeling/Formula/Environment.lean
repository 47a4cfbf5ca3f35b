import Formula.Operator.Registry
/-!
Environments: the known types, conversions and operators, with the settings under which formulas are
read. Registrations are steps that may fail; a step that fails leaves the environment as it was, and
a sequence of steps stops at the first failure and keeps what came before.
-/

namespace Formula

/-- All that is known when formulas are resolved and compiled. -/
structure Environment where
  types : TypeRegistry := {}
  casts : CastRegistry := {}
  operators : OperatorRegistry := {}
  config : Config := {}
  /-- The stamp of the next definition of a concrete type. -/
  nextStamp : Nat := 0

/-- Steps that change an environment and may fail. -/
abbrev Registration := ExceptT Error (StateM Environment)

namespace Registration

variable {α : Type}

/-- A step that changes the environment if it succeeds. -/
def step (f : Environment → Except Error (α × Environment)) : Registration α := do
  match f (← get) with
  | .ok (x, env) =>
    set env
    pure x
  | .error e => throw e

/-- Builds a concrete type. Every definition gets a stamp of its own. -/
def buildConcreteType (p : ConcreteType.Parts) : Registration ConcreteType :=
  step fun env => do
    let c ← p.build env.nextStamp
    pure (c, { env with nextStamp := env.nextStamp + 1 })

/-- Registers a concrete type. The entry of its name is returned. -/
def registerConcreteType (c : ConcreteType) : Registration ConcreteType :=
  step fun env => do
    let (c, types) ← env.types.registerConcrete c
    pure (c, { env with types })

/-- Registers a mathematical type. The entry of its name is returned. -/
def registerMathType (t : MathType) : Registration MathType :=
  step fun env => do
    let (t, types) ← env.types.registerMath t
    pure (t, { env with types })

/-- Registers a mathematical type by the modes and names of its representations. -/
def defineMathType (name : String) (representations : List (Mode × String)) :
    Registration MathType :=
  step fun env => do
    let (t, types) ← env.types.defineMath name representations
    pure (t, { env with types })

/-- Registers a conversion between mathematical types. -/
def registerMathCast (c : MathCast) : Registration MathCast :=
  step fun env => do
    let casts ← env.casts.registerMath c
    pure (c, { env with casts })

/-- The conversion between two mathematical types of given names. -/
def mathCastBetween (source target : String) : Registration MathCast :=
  step fun env => do
    let source ← env.types.mathType source
    let target ← env.types.mathType target
    pure (.between source target, env)

/-- Registers the conversion between two mathematical types of given names. -/
def defineMathCast (source target : String) : Registration MathCast := do
  registerMathCast (← mathCastBetween source target)

/-- Registers the conversion that an evaluator makes. -/
def registerConcreteCast (e : Evaluator) : Registration ConcreteCast :=
  step fun env => do
    let c ← ConcreteCast.ofEvaluator e
    let casts ← env.casts.registerConcrete c
    pure (c, { env with casts })

/-- Registers the conversion that an evaluator makes, by its description. -/
def defineConcreteCast (s : Evaluator.Spec) : Registration ConcreteCast := do
  let env ← get
  registerConcreteCast (← s.build env.types)

/-- Registers an overload. -/
def registerOverload (o : Overload) : Registration Overload :=
  step fun env =>
    let (o, operators) := env.operators.register o
    pure (o, { env with operators })

/-- Registers an overload by its description. -/
def defineOverload (s : Overload.Spec) : Registration Overload := do
  let env ← get
  registerOverload (← s.build env.types)

end Registration

namespace Environment

/-- Chooses the overload of an operator for arguments of some types. -/
def resolveOperator (env : Environment) (name : String) (arguments : List MathType) :
    Except Error Resolution :=
  env.operators.resolve env.casts name arguments

/-- Chooses the overload of an operator for arguments of types of some names. -/
def resolveOperatorByNames (env : Environment) (name : String) (arguments : List String) :
    Except Error Resolution := do
  env.resolveOperator name (← arguments.mapM env.types.mathType)

end Environment

end Formula
