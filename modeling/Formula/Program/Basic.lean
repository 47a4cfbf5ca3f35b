import Formula.Cast
import Formula.Scope
/-!
Programs: expressions in linear form. A program is a list of bindings; each computes the value of
one slot from the inputs, the constants and the slots before it.
-/

namespace Formula

/-- Where a step takes an operand from. -/
inductive Operand where
  /-- An earlier binding. -/
  | slot (index : Nat)
  /-- The constants of the program. -/
  | constant (index : Nat)
  deriving DecidableEq, Repr, Inhabited

/-- The conversion of a variable that may be given in another representation. -/
structure Lift where
  /-- The representation that the variable may be given in. -/
  source : ConcreteType
  conversion : ConcreteCast

/-- The reading of a variable, which is a positional argument or stands in the scope. -/
structure VariableRead where
  name : String
  /-- The place among the positional arguments. -/
  position? : Option Nat
  /-- The type that the value must have. -/
  target : ConcreteType
  /-- A conversion for values that have its source type and not the target. -/
  conversion? : Option Lift
  /-- Whether the value is checked. -/
  isChecked : Bool

/-- A step of a program. Where it calls a function it names the function's place in the program. -/
inductive Step where
  | read (r : VariableRead)
  | convert (index : Nat) (c : ConcreteCast) (operand : Operand)
  | binary (op : BinaryOp) (left right : Operand)
  | unary (op : UnaryOp) (operand : Operand)
  | call (index : Nat) (e : Evaluator) (operands : List Operand)

/-- A step with the type of the slot that it computes. -/
structure Binding where
  step : Step
  type : ConcreteType

/-- Where a function of a program comes from. -/
inductive Origin where
  /-- An overload, by its operator and its place among the overloads. -/
  | overload (name : String) (rank : Nat)
  /-- A conversion, by its types. -/
  | conversion (source target : String)
  deriving DecidableEq, Repr

/-- A function of a program. -/
structure Imported where
  origin : Origin
  evaluator : Evaluator

/-- An expression in linear form. -/
structure Program where
  bindings : Array Binding
  constants : Array Value
  functions : Array Imported
  root : Operand
  returnType : ConcreteType
  /-- The names of the positional arguments. -/
  exported : List String

/-- The slots of a program, which keep their values from one run to the next. -/
structure Frame where
  slots : Array Value := #[]

/-- What a run is given. -/
structure Inputs where
  arguments : List Value
  scope : Scope
  constants : Array Value

namespace Operand

/-- The value of an operand. -/
def fetch (inputs : Inputs) (slots : Array Value) : Operand → Value
  | slot i => slots.getD i default
  | constant i => inputs.constants.getD i default

end Operand

namespace VariableRead

/-- The value that a variable is given. -/
def value (r : VariableRead) (inputs : Inputs) : Except Error Value :=
  match r.position? with
  | some i => .ok (inputs.arguments.getD i default)
  | none =>
    match inputs.scope.get? r.name with
    | some v => .ok v
    | none => .error (.missingVariable r.name)

/-- The conversion that a value of a variable takes, if it takes one. -/
def conversionOf? (r : VariableRead) (v : Value) : Option Lift :=
  r.conversion?.filter fun l => !r.target.accepts v && l.source.accepts v

/-- What the place of a variable holds after its value is read. -/
def run (r : VariableRead) (inputs : Inputs) (place : Value) : Except Error Value := do
  let v ← r.value inputs
  match r.conversionOf? v with
  | some l => pure (l.conversion.applyInto v place)
  | none =>
    match if r.isChecked then r.target.complaint v else none with
    | some complaint => throw (.wrongType r.name complaint)
    | none => pure v

end VariableRead

namespace Step

/-- What the place of a step holds after the step, given the slots. -/
def run (inputs : Inputs) (slots : Array Value) (place : Value) : Step → Except Error Value
  | read r => r.run inputs place
  | convert _ c x => .ok (c.applyInto (x.fetch inputs slots) place)
  | binary op a b => .ok (op.apply (a.fetch inputs slots) (b.fetch inputs slots))
  | unary op a => .ok (op.apply (a.fetch inputs slots))
  | call _ e xs => .ok (e.callInto (xs.map (·.fetch inputs slots)) place)

end Step

namespace Program

/-- Fresh slots. -/
def newFrame (p : Program) : Frame :=
  { slots := p.bindings.map (·.type.initial) }

/-- Runs bindings from the slot `index` on, up to the first error. -/
def runFrom (inputs : Inputs) (index : Nat) (slots : Array Value) :
    List Binding → Except Error Unit × Array Value
  | [] => (.ok (), slots)
  | b :: bs =>
    match b.step.run inputs slots (slots.getD index default) with
    | .ok v => runFrom inputs (index + 1) (slots.setIfInBounds index v) bs
    | .error e => (.error e, slots)

/-- Runs a program: its value or the first error, and the slots afterwards. Slots of another number
than the program has are replaced by fresh ones. -/
def run (p : Program) (arguments : List Value) (scope : Scope) (frame : Frame) :
    Except Error Value × Frame :=
  if arguments.length ≠ p.exported.length then
    (.error (.argumentCount p.exported.length arguments.length), frame)
  else
    let frame := if frame.slots.size = p.bindings.size then frame else p.newFrame
    let inputs : Inputs := { arguments, scope, constants := p.constants }
    match runFrom inputs 0 frame.slots p.bindings.toList with
    | (.ok (), slots) => (.ok (p.root.fetch inputs slots), { slots })
    | (.error e, slots) => (.error e, { slots })

end Program

/-- The name under which a compiled expression is run. -/
def entryPoint : String := "evaluate"

/-- An expression compiled for a mode. -/
structure CompiledUnit where
  mode : Mode
  program : Program

namespace CompiledUnit

/-- The programs of a unit by name. -/
def entries (u : CompiledUnit) : Directory Program :=
  Directory.empty.insert entryPoint u.program

/-- Runs a unit on a frame. -/
def evaluateIn (u : CompiledUnit) (arguments : List Value) (scope : Scope) (frame : Frame) :
    Except Error Value × Frame :=
  u.program.run arguments scope frame

/-- Runs a unit on fresh slots. -/
def evaluateWith (u : CompiledUnit) (arguments : List Value) (scope : Scope) :
    Except Error Value :=
  (u.evaluateIn arguments scope u.program.newFrame).1

/-- Runs a unit without positional arguments. -/
def evaluate (u : CompiledUnit) (scope : Scope) : Except Error Value :=
  u.evaluateWith [] scope

end CompiledUnit

end Formula
