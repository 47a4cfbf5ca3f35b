import Formula.Power
import Mathlib.Algebra.Group.Basic
import Mathlib.Algebra.Group.Nat.Defs
import Mathlib.Algebra.Ring.Int.Parity
/-!
Repeated squaring gives powers: in a monoid those that are defined by multiplying one at a time, and
along a map that keeps products those of the other side. Powers of 64-bit integers are therefore
those of integers, modulo `2 ^ 64`.
-/

namespace Formula

section Monoid

variable {M : Type} [Monoid M]

/-- The digits of `k` that are left and the square so far make up the power that is missing. -/
theorem powerOnto_eq {fuel k : Nat} (h : k < 2 ^ fuel) (acc base : M) :
    powerOnto fuel acc base k = acc * base ^ k := by
  induction fuel generalizing k acc base with
  | zero =>
    obtain rfl : k = 0 := by simpa using h
    rw [powerOnto, pow_zero, mul_one]
  | succ fuel ih =>
    have hdigit : (if k % 2 = 1 then acc * base else acc) = acc * base ^ (k % 2) := by
      rcases Nat.mod_two_eq_zero_or_one k with hk | hk <;> simp [hk]
    have hsplit : base ^ k = base ^ (k % 2) * (base * base) ^ (k / 2) := by
      rw [← pow_two, ← pow_mul, ← pow_add, Nat.mod_add_div]
    rw [powerOnto, hdigit]
    split
    · rename_i hk
      rw [hsplit, hk, pow_zero, mul_one]
    · have hhalf : k / 2 < 2 ^ fuel := by
        rw [pow_succ] at h
        omega
      rw [ih hhalf, mul_assoc, ← hsplit]

theorem power_eq_pow (base : M) (k : Nat) : power 1 base k = base ^ k := by
  rw [power, powerOnto_eq Nat.lt_log2_self, one_mul]

end Monoid

section Map

variable {α β : Type} [Mul α] [Mul β] {f : α → β}

theorem powerOnto_map (hf : ∀ a b, f (a * b) = f a * f b) (fuel : Nat) (acc base : α) (k : Nat) :
    powerOnto fuel (f acc) (f base) k = f (powerOnto fuel acc base k) := by
  induction fuel generalizing acc base k with
  | zero => rfl
  | succ fuel ih =>
    simp only [powerOnto, ← hf, ← apply_ite f, ih]

theorem power_map (hf : ∀ a b, f (a * b) = f a * f b) (one base : α) (k : Nat) :
    power (f one) (f base) k = f (power one base k) :=
  powerOnto_map hf _ one base k

end Map

/-! ### Integers -/

/-- The power of an integer, truncated toward zero; of zero with a negative exponent it is zero. -/
def wholePower (m n : Int) : Int :=
  if 0 ≤ n then m ^ n.toNat else Int.tdiv 1 (m ^ n.natAbs)

theorem wholePower_of_neg {m n : Int} (h : n < 0) : wholePower m n =
    if m = 1 then 1 else if m = -1 then if n % 2 = 0 then 1 else -1 else 0 := by
  rw [wholePower, if_neg (Int.not_le.2 h)]
  split_ifs with hone hminus heven
  · subst hone
    simp
  · subst hminus
    rw [(Int.natAbs_even.2 (Int.even_iff.2 heven)).neg_one_pow]
    rfl
  · subst hminus
    have hodd : Odd n.natAbs := Int.natAbs_odd.2 (Int.not_even_iff_odd.1 (mt Int.even_iff.1 heven))
    rw [hodd.neg_one_pow]
    rfl
  · -- what is neither has an absolute value that one is not divided by, zero or at least two
    rw [← Int.natAbs_eq_zero, Int.natAbs_tdiv, Int.natAbs_pow]
    have hexponent : n.natAbs ≠ 0 := by omega
    rcases Nat.eq_zero_or_pos m.natAbs with hzero | hpositive
    · rw [hzero, zero_pow hexponent]
      rfl
    · have hlt : 1 < m.natAbs ^ n.natAbs := Nat.one_lt_pow hexponent (by omega)
      exact Nat.div_eq_of_lt hlt

theorem truncatedPower_eq (base exponent : Int64) : truncatedPower base exponent =
    Int64.ofInt (wholePower base.toInt (min exponent.toInt greatestExponent)) := by
  unfold truncatedPower
  dsimp only
  split
  · rename_i hn
    have hexponent : (min exponent.toInt greatestExponent).toNat =
        min exponent.toInt.toNat greatestExponent := by omega
    have hpositive : 0 ≤ min exponent.toInt greatestExponent := by omega
    rw [wholePower, if_pos hpositive, hexponent, ← power_eq_pow,
      ← power_map Int64.ofInt_mul, Int64.ofInt_toInt]
    rfl
  · rename_i hn
    have hexponent : min exponent.toInt greatestExponent = exponent.toInt := by omega
    have hone : base = 1 ↔ base.toInt = 1 := Int64.toInt_inj.symm
    have hminus : base = -1 ↔ base.toInt = -1 := Int64.toInt_inj.symm
    rw [hexponent, wholePower_of_neg (Int.not_le.1 hn)]
    simp only [hone, hminus, apply_ite Int64.ofInt]
    rfl

end Formula
