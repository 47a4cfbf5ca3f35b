import Formula.Interval.Basic
import Formula.Power
/-!
Interval arithmetic. The result of each operation encloses every value that the operation takes on
numbers of its operands; nothing is rounded outward. Its flags are those that all operands have, and
where the operation is defined on a part of its operands only, one remains: defined somewhere.
-/

namespace Formula.Interval

open Endpoint

variable {α : Type}

section Endpoint

variable [Endpoint α]

/-- The flags that both operands have, if the operation is defined anywhere. -/
def common (a b : Interval α) : Option UInt8 :=
  let info := a.info &&& b.info
  if Info.has info Info.somewhere then some info else none

/-- The least range that holds some numbers. -/
def hull (xs : List α) (info : UInt8) : Interval α :=
  ⟨xs.foldl minimum infinity, xs.foldl maximum (-infinity), info⟩

/-- All numbers, defined somewhere but not known to be so everywhere. -/
def everything : Interval α :=
  ⟨-infinity, infinity, Info.somewhere⟩

/-- The sum. -/
def add (a b : Interval α) : Interval α :=
  match common a b with
  | some info => ⟨a.lo + b.lo, a.hi + b.hi, info⟩
  | none => undefined

/-- The difference. -/
def sub (a b : Interval α) : Interval α :=
  match common a b with
  | some info => ⟨a.lo - b.hi, a.hi - b.lo, info⟩
  | none => undefined

/-- The product: the hull of those of the ends. -/
def mul (a b : Interval α) : Interval α :=
  match common a b with
  | some info => hull [a.lo * b.lo, a.hi * b.lo, a.lo * b.hi, a.hi * b.hi] info
  | none => undefined

/-- The quotient: the hull of those of the ends, if the divisor keeps clear of zero. -/
def div (a b : Interval α) : Interval α :=
  match common a b with
  | some info =>
    if lt (ofInt 0) b.lo || lt b.hi (ofInt 0) then
      hull [a.lo / b.lo, a.hi / b.lo, a.lo / b.hi, a.hi / b.hi] info
    else everything
  | none => undefined

/-- The negative. -/
def neg (a : Interval α) : Interval α :=
  if a.isDefined then ⟨-a.hi, -a.lo, a.info⟩ else undefined

/-- The absolute value. -/
def abs (a : Interval α) : Interval α :=
  if !a.isDefined then undefined
  else if le (ofInt 0) a.lo then a
  else if le a.hi (ofInt 0) then ⟨-a.hi, -a.lo, a.info⟩
  else ⟨ofInt 0, maximum a.hi (-a.lo), a.info⟩

/-- The power with a natural exponent. An even power folds a range around zero. -/
def powNat (a : Interval α) (k : Nat) : Interval α :=
  if !a.isDefined then undefined
  else if k = 0 then ⟨ofInt 1, ofInt 1, a.info⟩
  else
    let lo := power (ofInt 1) a.lo k
    let hi := power (ofInt 1) a.hi k
    if k % 2 = 1 || le (ofInt 0) a.lo then ⟨lo, hi, a.info⟩
    else if le a.hi (ofInt 0) then ⟨hi, lo, a.info⟩
    else ⟨ofInt 0, maximum lo hi, a.info⟩

/-- The greatest exponent of a power of intervals. -/
def greatestExponent : Nat := Nat.pow 2 31 - 1

/-- The power with an integer exponent. A negative one inverts the power with the opposite exponent,
or with the greatest one if there is no opposite. -/
def powInt (a : Interval α) (n : Int32) : Interval α :=
  if !a.isDefined then undefined
  else if n < 0 then
    div ⟨ofInt 1, ofInt 1, a.info⟩ (powNat a (min n.toInt.natAbs greatestExponent))
  else powNat a n.toInt.toNat

/-- The power with a range of integer exponents: of a single exponent as that power is, and
otherwise not known to be anything. -/
def pow (a b : Interval α) : Interval α :=
  match common a b with
  | none => undefined
  | some info =>
    match if eq b.lo b.hi then toInt? b.lo else none with
    | none => everything
    | some n =>
      if greatestExponent < n.natAbs then everything
      else
        let r := powInt a (Int32.ofInt n)
        if r.isDefined then { r with info := r.info &&& info } else r

/-- The powers of integers in a range with a negative exponent, in a fixed order: those of one, of
minus one, and zero for the rest. -/
def truncatedPowers (a : Interval α) (isEven : Bool) : List α :=
  let holds (n : Int) : Bool := le a.lo (ofInt n) && le (ofInt n) a.hi
  (if holds 1 then [ofInt 1] else []) ++
  (if holds (-1) then [if isEven then ofInt 1 else ofInt (-1)] else []) ++
  (if holds 0 || le a.lo (ofInt (-2)) || le (ofInt 2) a.hi then [ofInt 0] else [])

/-- The power of integers. A negative exponent truncates toward zero, as division of integers does.
There is nothing between two distinct values of the result, so that it is not continuous. -/
def intPow (a b : Interval α) : Interval α :=
  match common a b with
  | none => undefined
  | some info =>
    match if eq b.lo b.hi then toInt? b.lo else none with
    | none => everything
    | some n =>
      if le (ofInt 0) b.lo then pow a b
      else
        let r := hull (truncatedPowers a (n % 2 = 0)) info
        if lt r.hi r.lo then undefined
        else if eq r.lo r.hi then r
        else { r with info := info &&& ~~~Info.continuous }

/-- Whether every, no or some number of the first range is less than one of the second. -/
def less (a b : Interval α) : BoolInterval :=
  match common a b with
  | none => .undefined
  | some info =>
    if lt a.hi b.lo then ⟨true, true, info⟩
    else if le b.hi a.lo then ⟨false, false, info⟩
    else ⟨false, true, info⟩

/-- Whether every, no or some number of the first range is greater than one of the second. -/
def greater (a b : Interval α) : BoolInterval :=
  less b a

end Endpoint

section Elementary

variable [Elementary α]

/-- The exponential. -/
def exp (a : Interval α) : Interval α :=
  if a.isDefined then ⟨Elementary.exp a.lo, Elementary.exp a.hi, a.info⟩ else undefined

/-- The natural logarithm, defined above zero. -/
def ln (a : Interval α) : Interval α :=
  if !a.isDefined || le a.hi (ofInt 0) then undefined
  else if le a.lo (ofInt 0) then ⟨-infinity, Elementary.ln a.hi, Info.somewhere⟩
  else ⟨Elementary.ln a.lo, Elementary.ln a.hi, a.info⟩

/-- The square root, defined from zero up. -/
def sqrt (a : Interval α) : Interval α :=
  if !a.isDefined || lt a.hi (ofInt 0) then undefined
  else if eq a.hi (ofInt 0) then
    ⟨ofInt 0, ofInt 0, if eq a.lo (ofInt 0) then a.info else Info.somewhere⟩
  else if lt a.lo (ofInt 0) then ⟨ofInt 0, Elementary.sqrt a.hi, Info.somewhere⟩
  else ⟨Elementary.sqrt a.lo, Elementary.sqrt a.hi, a.info⟩

end Elementary

end Formula.Interval
