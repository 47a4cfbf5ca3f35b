import Formula.Decimal.Reader
import Formula.Evaluator.Primitive
import Formula.Types.Concrete
/-!
Evaluators: functions between concrete types. An evaluator either gives a new value or overwrites a
place, and what it does is a function, an operation on plain values, or nothing but a copy.
-/

namespace Formula

/-- How an evaluator hands over its result. -/
inductive Delivery where
  /-- As a new value. -/
  | fresh
  /-- By overwriting a place. -/
  | inPlace
  deriving DecidableEq, Repr

/-- The word for a way of delivery. -/
def Delivery.text : Delivery → String
  | fresh => "new"
  | inPlace => "write"

/-- A function on argument values. One that overwrites a place also takes what the place held, and
gives what it holds then. -/
inductive Function where
  | fresh (f : List Value → Value)
  | inPlace (f : List Value → Value → Value)

/-- How a function hands over its result. -/
def Function.delivery : Function → Delivery
  | fresh _ => .fresh
  | inPlace _ => .inPlace

/-- What an evaluator does. -/
inductive Implementation where
  | function (f : Function)
  | binary (op : BinaryOp)
  | unary (op : UnaryOp)
  | identity

/-- A function between concrete types. -/
structure Evaluator where
  arguments : List ConcreteType
  result : ConcreteType
  delivery : Delivery
  isIdentity : Bool
  implementation : Implementation

namespace Evaluator

/-- How many arguments an evaluator takes. -/
def arity (e : Evaluator) : Nat :=
  e.arguments.length

/-- The argument types and the result type between an arrow. -/
def arrow (arguments : List String) (result : String) : String :=
  "(" ++ ", ".intercalate arguments ++ ") -> " ++ result

/-- The types of an evaluator. -/
def signature (e : Evaluator) : String :=
  arrow (e.arguments.map (·.name)) e.result.name

/-- The value that a literal writes: a truth value, an integer if it is one in range, or a real
number. -/
def literal? (token : String) : Option Value :=
  match token with
  | "true" => some (.bool true)
  | "false" => some (.bool false)
  | token =>
    match Decimal.readInt64? token with
    | some n => some (.int n)
    | none => (Decimal.readDouble? token).map .real

/-- What a token stands for with so many arguments: a literal with none, and an operation with one
or two. -/
def ofToken? (arity : Nat) (token : String) : Option Implementation :=
  match arity with
  | 0 => (literal? token).map fun v => .function (.fresh fun _ => v)
  | 1 => (UnaryOp.ofToken? token).map .unary
  | 2 => (BinaryOp.ofToken? token).map .binary
  | _ => none

/-- Builds an evaluator. A function must hand over as is asked; without a function a copy is made if
an identity is asked for, and else the token decides, which gives new values however it was asked. A
primitive result cannot be overwritten, and a copy into a place needs a type that has one. -/
def build (arguments : List ConcreteType) (result : ConcreteType) (delivery : Delivery)
    (isIdentity : Bool) (token : Option String) (function : Option Function) :
    Except Error Evaluator :=
  if delivery = .inPlace ∧ result.isPrimitive then
    .error (.construction ("cannot write to a primitive (" ++ result.name ++ ")"))
  else match function with
    | some f =>
      if f.delivery = delivery then
        .ok { arguments, result, delivery, isIdentity, implementation := .function f }
      else .error (.construction
        (delivery.text ++ " evaluator was given a " ++ f.delivery.text ++ " implementation"))
    | none =>
      if isIdentity then
        if arguments.length ≠ 1 then
          .error (.construction ("identity evaluator takes exactly one argument, not " ++
            toString arguments.length))
        else if delivery = .inPlace ∧ result.copyOver?.isNone then
          .error (.construction ("identity write evaluator needs copy_to on " ++ result.name))
        else .ok { arguments, result, delivery, isIdentity, implementation := .identity }
      else match token.bind (ofToken? arguments.length) with
        | some implementation =>
          .ok { arguments, result, delivery := .fresh, isIdentity, implementation }
        | none => .error (.construction ("unable to generate evaluation function for " ++
            arrow (arguments.map (·.name)) result.name))

/-- The result on some arguments as a new value. An operation or a copy takes the arguments it needs
from the front and leaves the others. -/
def call (e : Evaluator) (args : List Value) : Value :=
  match e.implementation, args with
  | .function (.fresh f), args => f args
  | .function (.inPlace f), args => f args e.result.initial
  | .binary op, a :: b :: _ => op.apply a b
  | .unary op, a :: _ => op.apply a
  | .identity, a :: _ => e.result.copy a
  | _, _ => e.result.initial

/-- What a place holds after the result on some arguments is put there. -/
def callInto (e : Evaluator) (args : List Value) (place : Value) : Value :=
  match e.implementation, args with
  | .function (.inPlace f), args => f args place
  | .identity, a :: _ =>
    match e.result.copyOver?, e.delivery with
    | some copyOver, .inPlace => copyOver a place
    | _, _ => e.result.copy a
  | _, args => e.call args

end Evaluator

end Formula
