import Formula.Decimal.Binary
/-!
The numbers that can be ends of an interval. Interval arithmetic is written over this class, so
that it can be run on doubles and read over exact numbers alike.
-/

namespace Formula

/-- Numbers with infinities and an order. A number that is not below or equal to itself stands for
the outcome of an operation that has none. -/
class Endpoint (α : Type) extends Add α, Sub α, Mul α, Div α, Neg α where
  /-- The number of an integer. -/
  ofInt : Int → α
  /-- Above every other number. -/
  infinity : α
  /-- Whether one number is below another. -/
  lt : α → α → Bool
  /-- Whether one number is below or equal to another. -/
  le : α → α → Bool
  /-- The integer that the number is, if it is one. -/
  toInt? : α → Option Int

namespace Endpoint

variable {α : Type} [Endpoint α]

/-- Whether the number is the outcome of an operation that has none. -/
def isNaN (x : α) : Bool :=
  !le x x

/-- Whether two numbers are equal in the order. -/
def eq (x y : α) : Bool :=
  le x y && le y x

/-- The lesser of two numbers; one that is not a number gives way to the other. -/
def minimum (x y : α) : α :=
  if isNaN x then y else if isNaN y then x else if lt y x then y else x

/-- The greater of two numbers; one that is not a number gives way to the other. -/
def maximum (x y : α) : α :=
  if isNaN x then y else if isNaN y then x else if lt x y then y else x

end Endpoint

/-- Ends with the functions that are not rational. -/
class Elementary (α : Type) extends Endpoint α where
  exp : α → α
  ln : α → α
  sqrt : α → α

instance : Elementary Double where
  ofInt := Double.ofInt
  infinity := Double.infinity
  lt := Double.lt
  le := Double.le
  toInt? x := (Binary.ofDouble x).toInt?
  exp := Double.exp
  ln := Double.ln
  sqrt := Double.sqrt

end Formula
