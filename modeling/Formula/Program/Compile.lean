import Formula.Expr.Resolve
import Formula.Expr.Text
import Formula.Program.Basic
/-!
Compiling expressions whose types are resolved. Children come before parents; a variable is read
once; where the type of an operand is not the one that the evaluator takes, a conversion is bound,
once for each slot and type. Constants are converted ahead, so that only what they become is kept,
and equal ones and equal functions are kept once. A group stands for its child.
-/

namespace Formula

/-- What to compile for. -/
structure CompileOptions where
  mode : Mode := Mode.normal
  /-- Whether variables are checked when they are read. -/
  typechecks : Bool := false
  /-- The variables that are positional arguments. -/
  exported : List String := []
  /-- Whether variables may be given in the default mode, and are converted then. -/
  casts : Bool := false
  deriving DecidableEq, Repr

namespace CompileOptions

/-- The options that settings ask for. -/
def ofConfig (c : Config) : CompileOptions :=
  { mode := c.defaultMode, typechecks := c.typechecks }

/-- Checks names of positional arguments behind those already seen. -/
def checkExported (seen : List String) : List String → Except Error Unit
  | [] => .ok ()
  | name :: names =>
    if !Text.isName name then
      .error (.invalidOption
        ("exported argument `" ++ name ++ "` is not a valid variable name"))
    else if seen.contains name then
      .error (.invalidOption ("exported argument `" ++ name ++ "` is listed twice"))
    else checkExported (name :: seen) names

/-- Checks that the positional arguments have distinct and proper names. -/
def validate (o : CompileOptions) : Except Error Unit :=
  checkExported [] o.exported

end CompileOptions

namespace Compile

/-- What compilation depends on but for the expression. -/
structure Context where
  casts : CastRegistry
  /-- The mode that constants are written in. -/
  defaultMode : Mode
  options : CompileOptions

/-- A program under construction, with the slots of variables and conversions already bound. -/
structure Build where
  bindings : Array Binding := #[]
  constants : Array Value := #[]
  functions : Array Imported := #[]
  reads : List (String × Nat) := []
  conversions : List ((Nat × String) × Nat) := []

/-- What a compiled expression is: the slot of a binding, or a constant not yet kept. -/
inductive Bound where
  | slot (index : Nat)
  | literal (v : Value)

/-- Steps that extend a program. -/
abbrev Compiler := StateT Build (Except Error)

/-- The representation of a type in a mode. -/
def representation (t : MathType) (mode : Mode) : Except Error ConcreteType :=
  match t.representation? mode with
  | some c => .ok c
  | none => .error (.noEvaluator ("type " ++ t.name ++ " has no representation") mode)

/-- How one concrete type is reached from another. -/
def castBetween (ctx : Context) (source target : ConcreteType) :
    Except Error (Cast ConcreteCast) :=
  match ctx.casts.concreteCast? source target with
  | some c => .ok c
  | none => .error (.noCast source.name target.name)

/-- A constant in the representation that is compiled for. -/
def literal (ctx : Context) (t : MathType) (target : ConcreteType) (v : Value) :
    Except Error Value := do
  let source ← representation t ctx.defaultMode
  pure ((← castBetween ctx source target).carry v)

/-- The conversion of a variable given in the default mode, if it can need one. -/
def variableConversion (ctx : Context) (t : MathType) (target : ConcreteType) :
    Except Error (Option Lift) := do
  if ctx.options.casts then
    let source ← representation t ctx.defaultMode
    pure ((← castBetween ctx source target).conversion?.map (Lift.mk source))
  else pure none

/-- Keeps a constant, in the place of an identical one if there is one. -/
def keepConstant (v : Value) : Compiler Operand := do
  let b ← get
  match b.constants.findIdx? (· == v) with
  | some i => pure (.constant i)
  | none =>
    set { b with constants := b.constants.push v }
    pure (.constant b.constants.size)

/-- Keeps a function, in its place if it is kept already. -/
def keepFunction (f : Imported) : Compiler Nat := do
  let b ← get
  match b.functions.findIdx? (·.origin == f.origin) with
  | some i => pure i
  | none =>
    set { b with functions := b.functions.push f }
    pure b.functions.size

/-- Keeps what an expression was compiled to, if it is a constant. -/
def keep : Bound → Compiler Operand
  | .slot i => pure (.slot i)
  | .literal v => keepConstant v

/-- Binds the next slot. -/
def bind (step : Step) (type : ConcreteType) : Compiler Nat := do
  let b ← get
  set { b with bindings := b.bindings.push { step, type } }
  pure b.bindings.size

/-- The slot of a variable, which is read on first use. -/
def variableSlot (ctx : Context) (name : String) (t : MathType) (target : ConcreteType) :
    Compiler Nat := do
  match (← get).reads.lookup name with
  | some i => pure i
  | none =>
    let conversion? ← variableConversion ctx t target
    let position? := ctx.options.exported.findIdx? (· == name)
    let isChecked := ctx.options.typechecks
    let i ← bind (.read { name, position?, target, conversion?, isChecked }) target
    modify fun b => { b with reads := (name, i) :: b.reads }
    pure i

/-- The slot of a conversion, which is bound on first use. -/
def conversionSlot (c : ConcreteCast) (source : Nat) (target : String) : Compiler Nat := do
  match (← get).conversions.lookup (source, target) with
  | some i => pure i
  | none =>
    let f ← keepFunction
      { origin := .conversion c.source.name c.target.name, evaluator := c.evaluator }
    let i ← bind (.convert f c (.slot source)) c.target
    modify fun b => { b with conversions := ((source, target), i) :: b.conversions }
    pure i

/-- What a compiled expression of one type is as an operand of another. -/
def operand (ctx : Context) (x : Bound) (source target : ConcreteType) : Compiler Operand := do
  match ← castBetween ctx source target, x with
  | .identity, x => keep x
  | .convert c, .literal v => keepConstant (c.apply v)
  | .convert c, .slot i => pure (.slot (← conversionSlot c i target.name))

/-- The slot of an evaluator applied to operands. -/
def applicationSlot (o : Overload) (e : Evaluator) (operands : List Operand) : Compiler Nat := do
  match e.implementation, operands with
  | .binary op, [a, b] => bind (.binary op a b) e.result
  | .unary op, [a] => bind (.unary op a) e.result
  | _, xs =>
    let f ← keepFunction { origin := .overload o.name o.rank, evaluator := e }
    bind (.call f e xs) e.result

/-- The type of an expression, which must be resolved. -/
def typeOf (e : Expr) : Except Error MathType :=
  match e.type? with
  | some t => .ok t
  | none => .error (.unresolved e.text)

/-- The overload of an operator and its evaluator for a mode. -/
def chosen (mode : Mode) (e : Expr) : Except Error (Overload × Evaluator) :=
  match e.resolution? with
  | none => .error (.unresolved e.text)
  | some r =>
    match r.overload.evaluator? mode with
    | some f => .ok (r.overload, f)
    | none => .error (.noEvaluator r.overload.signature mode)

mutual

/-- Compiles an expression: what it becomes, and the concrete type of that. -/
def node (ctx : Context) : Expr → Compiler (Bound × ConcreteType)
  | .group slot cs => do
    let _ ← typeOf (.group slot cs)
    match cs with
    | [c] => node ctx c
    | _ => throw (.unresolved (Expr.group slot cs).text)
  | .var slot name => do
    let t ← typeOf (.var slot name)
    let target ← representation t ctx.options.mode
    pure (.slot (← variableSlot ctx name t target), target)
  | .const slot value typeName text => do
    let t ← typeOf (.const slot value typeName text)
    let target ← representation t ctx.options.mode
    pure (.literal (← literal ctx t target value), target)
  | .op slot name cs resolution => do
    let _ ← typeOf (.op slot name cs resolution)
    let (o, e) ← chosen ctx.options.mode (.op slot name cs resolution)
    let operands ← nodes ctx cs e.arguments
    pure (.slot (← applicationSlot o e operands), e.result)

/-- Compiles expressions from the left, as operands of some types. -/
def nodes (ctx : Context) : List Expr → List ConcreteType → Compiler (List Operand)
  | e :: es, target :: targets => do
    let (x, source) ← node ctx e
    let a ← operand ctx x source target
    let as ← nodes ctx es targets
    pure (a :: as)
  | _, _ => pure []

end

/-- Compiles a whole expression. -/
def program (ctx : Context) (e : Expr) : Except Error Program := do
  let ((root, returnType), b) ← (do
    let (x, type) ← node ctx e
    pure (← keep x, type) : Compiler (Operand × ConcreteType)).run {}
  pure {
    bindings := b.bindings
    constants := b.constants
    functions := b.functions
    root
    returnType
    exported := ctx.options.exported }

end Compile

namespace Environment

/-- What compilation in an environment depends on. -/
def compileContext (env : Environment) (options : CompileOptions) : Compile.Context :=
  { casts := env.casts, defaultMode := env.config.defaultMode, options }

/-- Compiles an expression in an environment. -/
def compile (env : Environment) (options : CompileOptions) (e : Expr) :
    Except Error CompiledUnit := do
  options.validate
  pure { mode := options.mode, program := ← Compile.program (env.compileContext options) e }

end Environment

end Formula
