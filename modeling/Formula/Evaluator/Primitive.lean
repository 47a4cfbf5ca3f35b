import Formula.Value.Basic
/-!
Operations on plain values that stand in a program by themselves. They take any values: of kinds
that an operation is not made for, it gives the undefined number or false.
-/

namespace Formula

/-- Operations on two values. -/
inductive BinaryOp where
  | add
  | sub
  | mul
  | div
  | and
  | or
  | eq
  | ne
  | le
  | ge
  | lt
  | gt
  deriving DecidableEq, Repr

namespace BinaryOp

/-- All operations on two values. -/
def all : List BinaryOp :=
  [add, sub, mul, div, and, or, eq, ne, le, ge, lt, gt]

/-- The sign of an operation. -/
def token : BinaryOp → String
  | add => "+"
  | sub => "-"
  | mul => "*"
  | div => "/"
  | and => "&&"
  | or => "||"
  | eq => "=="
  | ne => "!="
  | le => "<="
  | ge => ">="
  | lt => "<"
  | gt => ">"

/-- The operation with a sign. -/
def ofToken? (token : String) : Option BinaryOp :=
  all.find? (·.token == token)

/-- An operation on two integers, modulo `2 ^ 64`, or on two numbers as doubles. -/
def arithmetic (int : Int64 → Int64 → Int64) (real : Double → Double → Double) (a b : Value) :
    Value :=
  match a, b with
  | .int x, .int y => .int (int x y)
  | a, b =>
    match a.number?, b.number? with
    | some x, some y => .real (real x y)
    | _, _ => .real (.notNumber false)

/-- The quotient of two numbers as doubles. -/
def quotient (a b : Value) : Value :=
  match a.number?, b.number? with
  | some x, some y => .real (x / y)
  | _, _ => .real (.notNumber false)

/-- An operation on two truth values. -/
def logic (op : Bool → Bool → Bool) (a b : Value) : Value :=
  match a.bool?, b.bool? with
  | some x, some y => .bool (op x y)
  | _, _ => .bool false

/-- A truth value as an integer. -/
def bit (b : Bool) : Int64 :=
  if b then 1 else 0

/-- A comparison of two integers, of two truth values with false below true, or of two numbers as
doubles. -/
def comparison (int : Int64 → Int64 → Bool) (real : Double → Double → Bool) (a b : Value) : Value :=
  match a, b with
  | .int x, .int y => .bool (int x y)
  | .bool x, .bool y => .bool (int (bit x) (bit y))
  | a, b =>
    match a.number?, b.number? with
    | some x, some y => .bool (real x y)
    | _, _ => .bool false

/-- Applies an operation. -/
def apply : BinaryOp → Value → Value → Value
  | add => arithmetic (· + ·) (· + ·)
  | sub => arithmetic (· - ·) (· - ·)
  | mul => arithmetic (· * ·) (· * ·)
  | div => quotient
  | and => logic (· && ·)
  | or => logic (· || ·)
  | eq => comparison (· == ·) Double.eq
  | ne => comparison (· != ·) fun x y => !x.eq y
  | le => comparison (fun x y => decide (x ≤ y)) Double.le
  | ge => comparison (fun x y => decide (y ≤ x)) fun x y => y.le x
  | lt => comparison (fun x y => decide (x < y)) Double.lt
  | gt => comparison (fun x y => decide (y < x)) fun x y => y.lt x

end BinaryOp

/-- Operations on one value. -/
inductive UnaryOp where
  | neg
  | not
  deriving DecidableEq, Repr

namespace UnaryOp

/-- The sign of an operation. -/
def token : UnaryOp → String
  | neg => "-"
  | not => "!"

/-- The operation with a sign. -/
def ofToken? (token : String) : Option UnaryOp :=
  [neg, not].find? (·.token == token)

/-- Applies an operation. -/
def apply : UnaryOp → Value → Value
  | neg, .int n => .int (-n)
  | neg, .real x => .real (-x)
  | neg, .complex z => .complex z.neg
  | neg, _ => .real (.notNumber false)
  | not, .bool b => .bool !b
  | not, _ => .bool false

end UnaryOp

end Formula
