import Formula.Interval.Arithmetic
import Formula.Proofs.Interval.Flags
import Formula.Proofs.Power
import Mathlib.Algebra.Order.Field.Rat
import Mathlib.Algebra.Order.Ring.Abs
import Mathlib.Tactic.Linarith
/-!
Intervals between exact numbers. Read over rational numbers with two infinities, the operations of
interval arithmetic enclose what they do to each number of their operands; nothing is lost by
rounding.
-/

namespace Formula

/-- The rational numbers with two infinities, and the outcome of operations that have none. -/
inductive Exact where
  | rational (q : ℚ)
  | infinite (negative : Bool)
  | undefined
  deriving DecidableEq

namespace Exact

/-- The negative. -/
def neg : Exact → Exact
  | rational q => rational (-q)
  | infinite negative => infinite !negative
  | undefined => undefined

/-- The sum. Opposite infinities have none. -/
def add : Exact → Exact → Exact
  | rational p, rational q => rational (p + q)
  | infinite s, infinite t => if s = t then infinite s else undefined
  | infinite s, rational _ => infinite s
  | rational _, infinite t => infinite t
  | _, _ => undefined

/-- The sign of a number. -/
def sign : Exact → Int
  | rational q => q.num.sign
  | infinite negative => if negative then -1 else 1
  | undefined => 0

/-- The infinity of a sign, which zero has none of. -/
def infinityOf (sign : Int) : Exact :=
  if sign = 0 then undefined else infinite (sign < 0)

/-- The product. Zero and infinity have none. -/
def mul : Exact → Exact → Exact
  | rational p, rational q => rational (p * q)
  | undefined, _ => undefined
  | _, undefined => undefined
  | x, y => infinityOf (x.sign * y.sign)

/-- The quotient, which there is none of by zero or of two infinities. -/
def div : Exact → Exact → Exact
  | rational p, rational q => if q = 0 then undefined else rational (p / q)
  | rational _, infinite _ => rational 0
  | infinite s, rational q => infinityOf ((infinite s).sign * (rational q).sign)
  | _, _ => undefined

/-- Whether one number is below or equal to another. -/
def le : Exact → Exact → Bool
  | undefined, _ => false
  | _, undefined => false
  | infinite true, _ => true
  | _, infinite false => true
  | rational p, rational q => decide (p ≤ q)
  | _, _ => false

/-- The integer that the number is, if it is one. -/
def toInt? : Exact → Option Int
  | rational q => if q.den = 1 then some q.num else none
  | _ => none

instance : Endpoint Exact where
  add := add
  sub x y := add x (neg y)
  mul := mul
  div := div
  neg := neg
  ofInt n := rational n
  infinity := infinite false
  lt x y := le x y && !le y x
  le := le
  toInt? := toInt?

open Endpoint

variable {p q : ℚ} {n : Int}

@[simp] theorem rational_add : rational p + rational q = rational (p + q) := rfl

@[simp] theorem rational_mul : rational p * rational q = rational (p * q) := rfl

@[simp] theorem neg_rational : -rational p = rational (-p) := rfl

@[simp] theorem rational_sub : rational p - rational q = rational (p - q) :=
  congrArg rational (sub_eq_add_neg p q).symm

@[simp] theorem ofInt_eq : (ofInt n : Exact) = rational n := rfl

@[simp] theorem le_rational : Endpoint.le (rational p) (rational q) = decide (p ≤ q) := rfl

@[simp] theorem lt_rational : Endpoint.lt (rational p) (rational q) = decide (p < q) := by
  change (decide (p ≤ q) && !decide (q ≤ p)) = decide (p < q)
  rw [← decide_not, ← Bool.decide_and, decide_eq_decide]
  exact lt_iff_le_not_ge.symm

@[simp] theorem isNaN_rational : isNaN (rational p) = false := by
  simp [isNaN]

@[simp] theorem eq_rational : Endpoint.eq (rational p) (rational q) = decide (p = q) := by
  simp only [Endpoint.eq, le_rational, ← Bool.decide_and, decide_eq_decide]
  exact le_antisymm_iff.symm

@[simp] theorem toInt?_rational : Endpoint.toInt? (rational n) = some n := by
  change (if ((n : ℚ)).den = 1 then some ((n : ℚ)).num else none) = some n
  simp

@[simp] theorem minimum_rational : minimum (rational p) (rational q) = rational (min p q) := by
  simp only [minimum, isNaN_rational, Bool.false_eq_true, if_false, lt_rational,
    decide_eq_true_eq, min_comm p q, min_def_lt, apply_ite rational]

@[simp] theorem maximum_rational : maximum (rational p) (rational q) = rational (max p q) := by
  simp only [maximum, isNaN_rational, Bool.false_eq_true, if_false, lt_rational,
    decide_eq_true_eq, max_def_lt, apply_ite rational]

@[simp] theorem minimum_infinity : minimum infinity (rational q) = rational q := by
  have hinfinity : isNaN (infinity : Exact) = false := rfl
  have hlt : Endpoint.lt (rational q) infinity = true := rfl
  simp [minimum, hinfinity, hlt]

@[simp] theorem maximum_infinity : maximum (-infinity) (rational q) = rational q := by
  have hinfinity : isNaN (-infinity : Exact) = false := rfl
  have hlt : Endpoint.lt (-infinity) (rational q) = true := rfl
  simp [maximum, hinfinity, hlt]

theorem foldl_minimum (q : ℚ) (qs : List ℚ) :
    (qs.map rational).foldl minimum (rational q) = rational (qs.foldl min q) := by
  induction qs generalizing q with
  | nil => rfl
  | cons r qs ih => simp [ih]

theorem foldl_maximum (q : ℚ) (qs : List ℚ) :
    (qs.map rational).foldl maximum (rational q) = rational (qs.foldl max q) := by
  induction qs generalizing q with
  | nil => rfl
  | cons r qs ih => simp [ih]

theorem power_rational (q : ℚ) (k : Nat) :
    power (rational 1) (rational q) k = rational (q ^ k) := by
  rw [power_map (fun _ _ => rfl), power_eq_pow]

end Exact

end Formula
