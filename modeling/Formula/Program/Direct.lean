import Formula.Program.Compile
/-!
Evaluation without a program: a recursion over an expression whose types are resolved, which reads
every variable where it stands and applies every evaluator to values of its operands. Nothing is
shared, converted ahead or overwritten.
-/

namespace Formula

/-- The values of variables: in the order of the exported names, and by name. -/
structure Assignment where
  exported : List String
  arguments : List Value
  scope : Scope

/-- The value that a variable is given. A positional argument hides the name in the scope. -/
def Assignment.value? (a : Assignment) (name : String) : Option Value :=
  ((a.exported.zip a.arguments).lookup name).or (a.scope.get? name)

namespace Direct

open Compile (Context typeOf representation castBetween variableConversion literal chosen)

/-- What is received for a variable: converted if it has only the source type of the conversion,
and otherwise as it is, unless it is refused. -/
def received (isChecked : Bool) (conversion? : Option Lift) (target : ConcreteType)
    (name : String) (v : Value) : Except Error Value :=
  match conversion?.filter fun l => !target.accepts v && l.source.accepts v with
  | some l => .ok (l.conversion.apply v)
  | none =>
    match if isChecked then target.complaint v else none with
    | some complaint => .error (.wrongType name complaint)
    | none => .ok v

/-- The value of a variable of a type in a representation. -/
def variableValue (ctx : Context) (a : Assignment) (name : String) (t : MathType)
    (target : ConcreteType) : Except Error Value := do
  let conversion? ← variableConversion ctx t target
  match a.value? name with
  | some v => received ctx.options.typechecks conversion? target name v
  | none => throw (.missingVariable name)

mutual

/-- The value of an expression, and the concrete type that it is a value of. -/
def node (ctx : Context) (a : Assignment) : Expr → Except Error (Value × ConcreteType)
  | .group slot cs => do
    match cs with
    | [c] => node ctx a c
    | _ => throw (.unresolved (Expr.group slot cs).text)
  | .var slot name => do
    let t ← typeOf (.var slot name)
    let target ← representation t ctx.options.mode
    pure (← variableValue ctx a name t target, target)
  | .const slot value typeName text => do
    let t ← typeOf (.const slot value typeName text)
    let target ← representation t ctx.options.mode
    pure (← literal ctx t target value, target)
  | .op slot name cs resolution => do
    let (_, e) ← chosen ctx.options.mode (.op slot name cs resolution)
    pure (e.call (← nodes ctx a cs e.arguments), e.result)

/-- The values of expressions from the left, as arguments of some types. -/
def nodes (ctx : Context) (a : Assignment) :
    List Expr → List ConcreteType → Except Error (List Value)
  | e :: es, target :: targets => do
    let (v, source) ← node ctx a e
    let c ← castBetween ctx source target
    pure (c.carry v :: (← nodes ctx a es targets))
  | _, _ => pure []

end

end Direct

/-- The value of an expression in an environment, evaluated directly. -/
def Environment.evaluate (env : Environment) (options : CompileOptions) (e : Expr)
    (arguments : List Value) (scope : Scope) : Except Error Value := do
  let a : Assignment := { exported := options.exported, arguments, scope }
  pure (← Direct.node (env.compileContext options) a e).1

end Formula
