import Formula.Interval.Endpoint
/-!
Intervals of numbers and of truth values, with flags that say how much of an expression's range is
known to be defined and continuous.
-/

namespace Formula

namespace Info

/-- Defined somewhere in the range. -/
def somewhere : UInt8 := 1

/-- Defined everywhere in the range. -/
def everywhere : UInt8 := 2

/-- Continuous over the range. -/
def continuous : UInt8 := 4

/-- All flags. -/
def all : UInt8 := 7

/-- Whether a flag is set. -/
def has (info flag : UInt8) : Bool :=
  info &&& flag != 0

end Info

/-- A range of numbers. Without any flag it stands for no number at all. -/
structure Interval (α : Type) where
  lo : α
  hi : α
  info : UInt8
  deriving DecidableEq

namespace Interval

variable {α : Type}

/-- Sets the ends and the flags. -/
def set (a : Interval α) (lo hi : α) (info : UInt8) : Interval α :=
  { a with lo, hi, info }

variable [Endpoint α]

/-- The interval of an expression that is defined nowhere. -/
def undefined : Interval α :=
  ⟨Endpoint.ofInt 0, Endpoint.ofInt 0, 0⟩

/-- The range between two numbers, with all flags. -/
def range (lo hi : α) : Interval α :=
  ⟨lo, hi, Info.all⟩

/-- The range that holds one number; undefined if it is not a number. -/
def point (x : α) : Interval α :=
  if Endpoint.isNaN x then undefined else range x x

/-- The range that holds zero. -/
def zero : Interval α :=
  range (Endpoint.ofInt 0) (Endpoint.ofInt 0)

/-- Whether any flag is set. -/
def isDefined (a : Interval α) : Bool :=
  a.info != 0

/-- Whether a number lies in the range. -/
def contains (a : Interval α) (x : α) : Bool :=
  a.isDefined && Endpoint.le a.lo x && Endpoint.le x a.hi

end Interval

/-- A range of truth values, false before true. -/
structure BoolInterval where
  lo : Bool
  hi : Bool
  info : UInt8
  deriving DecidableEq

namespace BoolInterval

/-- The range that holds one truth value. -/
def point (b : Bool) : BoolInterval :=
  ⟨b, b, Info.all⟩

/-- The range of an expression that is defined nowhere. -/
def undefined : BoolInterval :=
  ⟨false, false, 0⟩

/-- Whether any flag is set. -/
def isDefined (b : BoolInterval) : Bool :=
  b.info != 0

end BoolInterval

end Formula
