import Formula.Complex
import Formula.Interval.Basic
/-!
Values of expressions: truth values, integers, real and complex numbers, and the ranges that stand
for truth values and real numbers when an expression is evaluated over intervals.
-/

namespace Formula

/-- A value of an expression. Two values are the same if their kinds and all their bits are. -/
inductive Value where
  | bool (b : Bool)
  | int (n : Int64)
  | real (x : Double)
  | complex (z : Complex)
  | interval (a : Interval Double)
  | boolInterval (b : BoolInterval)
  deriving DecidableEq

/-- The kinds of value. -/
inductive Kind where
  | bool
  | int
  | real
  | complex
  | interval
  | boolInterval
  deriving DecidableEq, Repr

namespace Kind

/-- All kinds. -/
def all : List Kind :=
  [bool, int, real, complex, interval, boolInterval]

/-- The name of a kind in a sentence. -/
def text : Kind → String
  | bool => "bool"
  | int => "int"
  | real => "real"
  | complex => "complex"
  | interval => "interval"
  | boolInterval => "bool interval"

/-- The name of a kind in a document. -/
def tag : Kind → String
  | boolInterval => "bool_interval"
  | k => k.text

end Kind

namespace Value

instance : Inhabited Value := ⟨bool false⟩

/-- The kind of a value. -/
def kind : Value → Kind
  | bool _ => .bool
  | int _ => .int
  | real _ => .real
  | complex _ => .complex
  | interval _ => .interval
  | boolInterval _ => .boolInterval

/-- The truth value, of a value that is one. -/
def bool? : Value → Option Bool
  | bool b => some b
  | _ => none

/-- The integer, of a value that is one. -/
def int? : Value → Option Int64
  | int n => some n
  | _ => none

/-- The real number, of a value that is one. -/
def real? : Value → Option Double
  | real x => some x
  | _ => none

/-- The complex number, of a value that is one. -/
def complex? : Value → Option Complex
  | complex z => some z
  | _ => none

/-- The interval, of a value that is one. -/
def interval? : Value → Option (Interval Double)
  | interval a => some a
  | _ => none

/-- The range of truth values, of a value that is one. -/
def boolInterval? : Value → Option BoolInterval
  | boolInterval b => some b
  | _ => none

/-- An integer or a real number as a double. -/
def number? : Value → Option Double
  | int n => some (.ofInt n.toInt)
  | real x => some x
  | _ => none

/-- Whether two values of one kind are equal as numbers are: zeros of both signs are equal, and what
is not a number equals nothing. -/
def equal : Value → Value → Bool
  | bool a, bool b => a == b
  | int a, int b => a == b
  | real a, real b => a.eq b
  | complex a, complex b => a.re.eq b.re && a.im.eq b.im
  | interval a, interval b => a.lo.eq b.lo && a.hi.eq b.hi && a.info == b.info
  | boolInterval a, boolInterval b => a == b
  | _, _ => false

/-- What a place holds after a value is written to it. A place that holds a value of the same kind
keeps it and has its parts set; any other is given the new value. -/
def write : (place : Value) → Value → Value
  | interval old, interval a => interval (old.set a.lo a.hi a.info)
  | complex _, complex z => complex z
  | boolInterval _, boolInterval b => boolInterval b
  | _, v => v

/-- What is written to a place is all that it holds then. -/
@[simp] theorem write_eq (place v : Value) : place.write v = v := by
  cases place <;> cases v <;> rfl

end Value

end Formula
