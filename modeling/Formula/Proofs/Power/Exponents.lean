import Formula.Proofs.Power
import Mathlib.Algebra.Order.Field.Power
import Mathlib.Data.Int.ModEq
import Mathlib.Data.Rat.Floor
import Mathlib.NumberTheory.Multiplicity
import Mathlib.RingTheory.Int.Basic
/-!
Powers of 64-bit integers against those of integers and of rational numbers, for all exponents.
Exponents are cut off at `2 ^ 32 - 1`. Up to there a power is exact modulo `2 ^ 64`; beyond, it is
if the base is even, and of an odd base it is if and only if the two exponents are as far apart as
the order of the base wants. With a negative exponent the power of a rational number is truncated.
-/

namespace Formula

/-! ### Powers modulo a power of two -/

section Residues

variable {m : ℤ} {d g k n : ℕ}

/-- For an even exponent the exponent is lifted, for an odd one nothing is. -/
theorem two_pow_dvd_pow_sub_one_iff (odd : ¬2 ∣ m) :
    2 ^ k ∣ m ^ d - 1 ↔
      if 2 ∣ d then 2 ^ (k + 1) ∣ (m ^ 2 - 1) * d else 2 ^ k ∣ m - 1 := by
  have htwo : 2 ∣ m - 1 := by omega
  split
  · rename_i even
    have hlift := Int.two_pow_sub_pow htwo odd (even_iff_two_dvd.2 even)
    rw [one_pow, ← emultiplicity_mul Int.prime_two, ← emultiplicity_mul Int.prime_two] at hlift
    have hsquare : m ^ 2 - 1 = (m + 1) * (m - 1) := by ring
    rw [pow_dvd_iff_le_emultiplicity, pow_dvd_iff_le_emultiplicity, hsquare, ← hlift,
      Nat.cast_add, Nat.cast_one, ENat.add_le_add_iff_right (by decide)]
  · rename_i hd
    have hprime := emultiplicity_pow_sub_pow_of_prime Int.prime_two htwo odd (n := d)
      (by exact_mod_cast hd)
    rw [one_pow] at hprime
    rw [pow_dvd_iff_le_emultiplicity, pow_dvd_iff_le_emultiplicity, hprime]

theorem pow_modEq_pow_iff (odd : ¬2 ∣ m) (h : g ≤ n) :
    m ^ g ≡ m ^ n [ZMOD 2 ^ k] ↔ 2 ^ k ∣ m ^ (n - g) - 1 := by
  have hcoprime : IsCoprime ((2 : ℤ) ^ k) (m ^ g) :=
    (Int.isCoprime_two_left.2 (Int.not_even_iff_odd.1 (mt even_iff_two_dvd.1 odd))).pow
  have hsplit : m ^ n - m ^ g = m ^ g * (m ^ (n - g) - 1) := by
    rw [mul_sub, mul_one, ← pow_add, Nat.add_sub_cancel' h]
  rw [Int.modEq_iff_dvd, hsplit]
  exact ⟨hcoprime.dvd_of_dvd_mul_left, fun h => h.mul_left _⟩

/-- When a power stays the same modulo `2 ^ k` if an exponent `n` is cut off at an odd `g`. -/
theorem pow_cut_modEq_iff (hk : k ≤ g) (odd : ¬2 ∣ g) (h : g < n) :
    m ^ g ≡ m ^ n [ZMOD 2 ^ k] ↔
      2 ∣ m ∨ 2 ^ k ∣ m - 1 ∨ ¬2 ∣ n ∧ 2 ^ (k + 1) ∣ (m ^ 2 - 1) * (n - g : ℕ) := by
  by_cases hm : 2 ∣ m
  · have hzero : ∀ {e : ℕ}, k ≤ e → (2 : ℤ) ^ k ∣ m ^ e := fun he =>
      (pow_dvd_pow 2 he).trans (pow_dvd_pow_of_dvd hm _)
    refine iff_of_true ?_ (.inl hm)
    exact (Int.modEq_zero_iff_dvd.2 (hzero hk)).trans
      (Int.modEq_zero_iff_dvd.2 (hzero (hk.trans h.le))).symm
  · have hparity : 2 ∣ n - g ↔ ¬2 ∣ n := by omega
    rw [pow_modEq_pow_iff hm h.le, or_iff_right hm]
    constructor
    · intro hdvd
      rw [two_pow_dvd_pow_sub_one_iff hm] at hdvd
      split at hdvd
      · rename_i even
        exact .inr ⟨hparity.1 even, hdvd⟩
      · exact .inl hdvd
    · rintro (hone | ⟨hn, hdvd⟩)
      · have hdvd := sub_dvd_pow_sub_pow m 1 (n - g)
        rw [one_pow] at hdvd
        exact hone.trans hdvd
      · rw [two_pow_dvd_pow_sub_one_iff hm, if_pos (hparity.2 hn)]
        exact hdvd

end Residues

/-! ### Rational powers -/

/-- A rational number without its fraction. -/
def towardZero (q : ℚ) : ℤ :=
  if 0 ≤ q then ⌊q⌋ else ⌈q⌉

theorem towardZero_intCast (n : ℤ) : towardZero n = n := by
  unfold towardZero
  split
  · exact Int.floor_intCast n
  · exact Int.ceil_intCast n

theorem towardZero_of_abs_lt_one {q : ℚ} (h : |q| < 1) : towardZero q = 0 := by
  obtain ⟨hlow, hhigh⟩ := abs_lt.1 h
  unfold towardZero
  split
  · rename_i hq
    exact Int.floor_eq_zero_iff.2 ⟨hq, hhigh⟩
  · rename_i hq
    exact Int.ceil_eq_zero_iff.2 ⟨hlow, (not_le.1 hq).le⟩

/-- With a negative exponent the power of an integer is that of a rational number, truncated. -/
theorem wholePower_eq_towardZero {m n : ℤ} (hn : n < 0) :
    wholePower m n = towardZero ((m : ℚ) ^ n) := by
  rw [wholePower_of_neg hn]
  split_ifs with hone hminus heven
  · subst hone
    rw [Int.cast_one, one_zpow]
    exact (towardZero_intCast 1).symm
  · subst hminus
    rw [Int.cast_neg, Int.cast_one, (Int.even_iff.2 heven).neg_one_zpow]
    exact (towardZero_intCast 1).symm
  · subst hminus
    have hodd : Odd n := Int.not_even_iff_odd.1 (mt Int.even_iff.1 heven)
    rw [Int.cast_neg, Int.cast_one, hodd.neg_one_zpow]
    exact (towardZero_intCast (-1)).symm
  · symm
    apply towardZero_of_abs_lt_one
    by_cases hzero : m = 0
    · subst hzero
      rw [Int.cast_zero, zero_zpow n hn.ne, abs_zero]
      exact zero_lt_one
    · have hbase : 1 < |(m : ℚ)| := by
        have hint : 1 < |m| := by
          rw [lt_abs]
          omega
        exact_mod_cast hint
      rw [abs_zpow]
      exact zpow_lt_one_of_neg₀ hbase hn

/-! ### 64-bit integers -/

/-- The exponents with which powers of 64-bit integers are exact. -/
def ExactPower (m n : ℤ) : Prop :=
  n ≤ greatestExponent ∨ 2 ∣ m ∨ m = 1 ∨
    ¬2 ∣ n ∧ 2 ^ 65 ∣ (m ^ 2 - 1) * (n - greatestExponent)

theorem toInt_ofInt_modEq (n : ℤ) : (Int64.ofInt n).toInt ≡ n [ZMOD 2 ^ 64] := by
  rw [Int64.toInt_ofInt]
  exact Int.bmod_emod

theorem dvd_toInt_sub_one_iff {m : Int64} : 2 ^ 64 ∣ m.toInt - 1 ↔ m.toInt = 1 := by
  have hlow := m.le_toInt
  have hhigh := m.toInt_le
  have hmin : Int64.minValue.toInt = -2 ^ 63 := rfl
  have hmax : Int64.maxValue.toInt = 2 ^ 63 - 1 := rfl
  omega

variable (base exponent : Int64)

theorem truncatedPower_modEq (h : 0 ≤ exponent.toInt) : (truncatedPower base exponent).toInt ≡
    base.toInt ^ min exponent.toInt.toNat greatestExponent [ZMOD 2 ^ 64] := by
  have hpositive : 0 ≤ min exponent.toInt greatestExponent := by omega
  have hcut : (min exponent.toInt greatestExponent).toNat =
      min exponent.toInt.toNat greatestExponent := by omega
  rw [truncatedPower_eq, wholePower, if_pos hpositive, hcut]
  exact toInt_ofInt_modEq _

theorem exactPower_iff (h : 0 ≤ exponent.toInt) :
    base.toInt ^ min exponent.toInt.toNat greatestExponent ≡
        base.toInt ^ exponent.toInt.toNat [ZMOD 2 ^ 64] ↔
      ExactPower base.toInt exponent.toInt := by
  unfold ExactPower
  by_cases hle : exponent.toInt ≤ greatestExponent
  · have hcut : min exponent.toInt.toNat greatestExponent = exponent.toInt.toNat := by omega
    rw [hcut]
    exact iff_of_true (Int.ModEq.refl _) (.inl hle)
  · have hcut : min exponent.toInt.toNat greatestExponent = greatestExponent := by omega
    have hdistance : ((exponent.toInt.toNat - greatestExponent : ℕ) : ℤ) =
        exponent.toInt - greatestExponent := by omega
    have hparity : 2 ∣ exponent.toInt.toNat ↔ 2 ∣ exponent.toInt := by omega
    rw [hcut, pow_cut_modEq_iff (by decide) (by decide) (by omega), or_iff_right hle,
      dvd_toInt_sub_one_iff, hdistance, hparity]

theorem toInt_truncatedPower_of_neg (h : exponent.toInt < 0) :
    (truncatedPower base exponent).toInt = wholePower base.toInt exponent.toInt := by
  have hcut : min exponent.toInt greatestExponent = exponent.toInt := by omega
  rw [truncatedPower_eq, hcut, wholePower_of_neg h]
  split_ifs <;> rfl

/-- With an exponent that is not negative the power is taken modulo `2 ^ 64` and the exponent cut
off, which shows unless it is one of those told. With a negative exponent the power is truncated. -/
theorem truncatedPower_exact_iff :
    (0 ≤ exponent.toInt →
      (truncatedPower base exponent).toInt ≡
        base.toInt ^ min exponent.toInt.toNat greatestExponent [ZMOD 2 ^ 64] ∧
      ((truncatedPower base exponent).toInt ≡ base.toInt ^ exponent.toInt.toNat [ZMOD 2 ^ 64] ↔
        ExactPower base.toInt exponent.toInt)) ∧
    (exponent.toInt < 0 →
      (truncatedPower base exponent).toInt =
        (if base = 0 then 0 else towardZero ((base.toInt : ℚ) ^ exponent.toInt)) ∧
      truncatedPower base exponent =
        if base = 1 then 1 else if base = -1 then if 2 ∣ exponent.toInt then 1 else -1 else 0) := by
  refine ⟨fun h => ?_, fun h => ?_⟩
  · have hpower := truncatedPower_modEq base exponent h
    rw [← exactPower_iff base exponent h]
    exact ⟨hpower, hpower.symm.trans, hpower.trans⟩
  · refine ⟨?_, ?_⟩
    · rw [toInt_truncatedPower_of_neg base exponent h]
      split_ifs with hzero
      · rw [hzero, Int64.toInt_zero, wholePower_of_neg h]
        rfl
      · exact wholePower_eq_towardZero h
    · have heven : exponent.toInt % 2 = 0 ↔ 2 ∣ exponent.toInt := by omega
      simp only [truncatedPower, if_neg (Int.not_le.2 h), heven]

/-- Minus one has the power one with an even exponent, and is given as its own power. -/
theorem minusOne_not_exact : truncatedPower (-1) 4294967296 = -1 ∧
    (-1 : ℤ) ^ (4294967296 : Int64).toInt.toNat = 1 ∧
    ¬(truncatedPower (-1) 4294967296).toInt ≡
      (-1 : Int64).toInt ^ (4294967296 : Int64).toInt.toNat [ZMOD 2 ^ 64] := by
  have hpower : truncatedPower (-1) 4294967296 = -1 := by decide +kernel
  have hone : (-1 : ℤ) ^ (4294967296 : Int64).toInt.toNat = 1 :=
    Even.neg_one_pow (by decide)
  refine ⟨hpower, hone, ?_⟩
  have hminus : (-1 : Int64).toInt = -1 := rfl
  rw [hpower, hminus, hone]
  decide

/-- The order of three modulo `2 ^ 64` is `2 ^ 62`, so that an exponent which is that much beyond
the limit does not show. -/
theorem powers_of_three_and_minusOne :
    (0 ≤ (4611686022722355199 : Int64).toInt ∧
      (truncatedPower 3 4611686022722355199).toInt ≡
        (3 : Int64).toInt ^ (4611686022722355199 : Int64).toInt.toNat [ZMOD 2 ^ 64]) ∧
    (-3 : Int64).toInt < 0 ∧ truncatedPower (-1) (-3) = -1 := by
  have hpositive : 0 ≤ (4611686022722355199 : Int64).toInt := by decide +kernel
  have hexact : ExactPower (3 : Int64).toInt (4611686022722355199 : Int64).toInt :=
    .inr (.inr (.inr (by decide +kernel)))
  have hnegative : (-3 : Int64).toInt < 0 := by decide +kernel
  refine ⟨⟨hpositive, (((truncatedPower_exact_iff _ _).1 hpositive).2).2 hexact⟩, hnegative, ?_⟩
  rw [((truncatedPower_exact_iff (-1) (-3)).2 hnegative).2]
  decide +kernel

end Formula
