import Formula.Proofs.Interval.Operations
import Mathlib.Algebra.Order.Field.Power
/-!
Powers of intervals between exact numbers, for all 32-bit exponents. A negative exponent inverts the
power with the opposite one. The least exponent has no opposite of 32 bits, and the power next to it
is inverted; only around zero, or where all powers are one, does that enclose.
-/

namespace Formula.Interval

open Info Endpoint Exact

variable {l h p q x : ℚ} {i : UInt8} {k : Nat} {n : Int32}

/-! ### Powers with natural exponents -/

theorem powNat_odd (hi : i ≠ 0) (odd : k % 2 = 1) :
    powNat (between l h i) k = between (l ^ k) (h ^ k) i := by
  have hk : k ≠ 0 := by omega
  rw [powNat_between hi, if_neg hk, if_pos (.inl odd)]

theorem exists_powNat_eq (l h : ℚ) (hi : i ≠ 0) (k : Nat) :
    ∃ p q, powNat (between l h i) k = between p q i := by
  rw [powNat_between hi]
  split_ifs <;> exact ⟨_, _, rfl⟩

/-! ### Reciprocals -/

/-- Whatever the exponent, the inverse of a power holds the inverses of the powers. -/
theorem inverse_encloses (somewhere_in : Within somewhere i) (hx : l ≤ x ∧ x ≤ h) (k : Nat) :
    (div (between 1 1 i) (powNat (between l h i) k)).contains (.rational (1 / x ^ k)) = true := by
  have hi : i ≠ 0 := ne_zero_of_somewhere somewhere_in
  have hpower := powNat_encloses hi hx k
  obtain ⟨p, q, hform⟩ := exists_powNat_eq l h hi k
  rw [hform] at hpower ⊢
  exact div_encloses (somewhere_in.and somewhere_in) ⟨le_rfl, le_rfl⟩ (contains_between.1 hpower).2

theorem inverse_eq (somewhere_in : Within somewhere i) (hle : p ≤ q) (clear : 0 < p ∨ q < 0) :
    div (between 1 1 i) (between p q i) = between q⁻¹ p⁻¹ i := by
  have hreversed : q⁻¹ ≤ p⁻¹ := (inv_reversed clear ⟨hle, le_rfl⟩).2
  rw [div_between (somewhere_in.and somewhere_in) hle, if_pos clear, hull_eq, UInt8.and_self]
  simp only [one_div, List.foldl_cons, List.foldl_nil, min_self, max_self, min_eq_right hreversed,
    max_eq_left hreversed]

/-! ### Powers with 32-bit exponents -/

theorem powInt_of_neg (hi : i ≠ 0) (hn : n < 0) : powInt (between l h i) n =
    div (between 1 1 i) (powNat (between l h i) (min n.toInt.natAbs greatestExponent)) := by
  rw [powInt, isDefined_between hi, Bool.not_true, if_neg Bool.false_ne_true, if_pos hn]
  simp [between]

theorem zpow_of_neg (x : ℚ) (hn : n < 0) : x ^ n.toInt = 1 / x ^ n.toInt.natAbs := by
  have hneg : n.toInt < 0 := Int32.lt_iff_toInt_lt.1 hn
  have hopposite : n.toInt = -(n.toInt.natAbs : ℤ) := by omega
  rw [one_div, ← zpow_natCast, ← zpow_neg, ← hopposite]

theorem powInt_isDefined (somewhere_in : Within somewhere i) (hlh : l ≤ h) (n : Int32) :
    (powInt (between l h i) n).isDefined = true := by
  have hi : i ≠ 0 := ne_zero_of_somewhere somewhere_in
  by_cases hn : n < 0
  · have hinverse := inverse_encloses somewhere_in ⟨le_rfl, hlh⟩
      (min n.toInt.natAbs greatestExponent)
    rw [← powInt_of_neg hi hn] at hinverse
    simp only [contains, Bool.and_eq_true] at hinverse
    exact hinverse.1.1
  · rw [powInt_of_not_neg hn, isDefined_eq_true, info_powNat (isDefined_between hi)]
    exact hi

/-- The power with an exponent that has an opposite. -/
theorem powInt_encloses (somewhere_in : Within somewhere i) (hx : l ≤ x ∧ x ≤ h)
    (hn : n ≠ Int32.minValue) :
    (powInt (between l h i) n).contains (.rational (x ^ n.toInt)) = true := by
  have hi : i ≠ 0 := ne_zero_of_somewhere somewhere_in
  by_cases hneg : n < 0
  · have hlow := n.le_toInt
    have htoInt : n.toInt < 0 := Int32.lt_iff_toInt_lt.1 hneg
    have hmin : Int32.minValue.toInt = -2 ^ 31 := rfl
    have hleast : n.toInt ≠ -2 ^ 31 := fun heq => hn (Int32.toInt_inj.1 heq)
    have hlimit : greatestExponent = 2 ^ 31 - 1 := rfl
    have hopposite : min n.toInt.natAbs greatestExponent = n.toInt.natAbs := by omega
    rw [powInt_of_neg hi hneg, hopposite, zpow_of_neg x hneg]
    exact inverse_encloses somewhere_in hx _
  · have hnonneg : ¬n.toInt < 0 := fun hlt => hneg (Int32.lt_iff_toInt_lt.2 hlt)
    have hexponent : n.toInt = (n.toInt.toNat : ℤ) := by omega
    rw [powInt_of_not_neg hneg, hexponent, zpow_natCast]
    exact powNat_encloses hi hx _

/-! ### The least exponent -/

/-- The inverse of an odd power, for a range clear of zero. -/
theorem inverse_odd (somewhere_in : Within somewhere i) (hlh : l ≤ h) (clear : 0 < l ∨ h < 0)
    (odd : k % 2 = 1) : div (between 1 1 i) (powNat (between l h i) k) =
      between (h ^ k)⁻¹ (l ^ k)⁻¹ i := by
  have hodd : Odd k := Nat.odd_iff.2 odd
  rw [powNat_odd (ne_zero_of_somewhere somewhere_in) odd]
  exact inverse_eq somewhere_in (hodd.strictMono_pow.monotone hlh)
    (clear.imp (fun hpos => pow_pos hpos k) hodd.pow_neg)

/-- If the inverse of an odd power holds the inverses of the next power, then all are one. -/
theorem eq_one_of_inverse_odd (somewhere_in : Within somewhere i) (hlh : l ≤ h)
    (clear : 0 < l ∨ h < 0) (odd : k % 2 = 1)
    (hall : ∀ x, l ≤ x ∧ x ≤ h → (div (between 1 1 i) (powNat (between l h i) k)).contains
      (.rational (1 / x ^ (k + 1))) = true) : l = 1 ∧ h = 1 := by
  have hodd : Odd k := Nat.odd_iff.2 odd
  simp only [inverse_odd somewhere_in hlh clear odd, contains_between, one_div] at hall
  obtain ⟨-, -, hatl⟩ := hall l ⟨le_rfl, hlh⟩
  obtain ⟨-, hath, hath'⟩ := hall h ⟨hlh, le_rfl⟩
  rcases clear with hpos | hneg
  · have hposh : 0 < h := hpos.trans_le hlh
    rw [inv_le_inv₀ (pow_pos hpos _) (pow_pos hpos _), pow_succ,
      le_mul_iff_one_le_right (pow_pos hpos _)] at hatl
    rw [inv_le_inv₀ (pow_pos hposh _) (pow_pos hposh _), pow_succ,
      mul_le_iff_le_one_right (pow_pos hposh _)] at hath
    exact ⟨le_antisymm (hlh.trans hath) hatl, le_antisymm hath (hatl.trans hlh)⟩
  · -- the power is negative, and the next one is positive
    have hpower : (l ^ k)⁻¹ < 0 := inv_lt_zero.2 (hodd.pow_neg (hlh.trans_lt hneg))
    have hnext : 0 < (h ^ (k + 1))⁻¹ := inv_pos.2 (hodd.add_one.pow_pos hneg.ne)
    exact absurd (hath'.trans_lt hpower) hnext.not_gt

theorem inverse_odd_around_zero (somewhere_in : Within somewhere i) (hzero : l ≤ 0 ∧ 0 ≤ h)
    (odd : k % 2 = 1) : div (between 1 1 i) (powNat (between l h i) k) = everything := by
  have hodd : Odd k := Nat.odd_iff.2 odd
  have hle : l ^ k ≤ h ^ k := hodd.strictMono_pow.monotone (hzero.1.trans hzero.2)
  rw [powNat_odd (ne_zero_of_somewhere somewhere_in) odd,
    div_between (somewhere_in.and somewhere_in) hle, if_neg]
  rintro (hpos | hneg)
  · exact absurd (hodd.pow_pos_iff.1 hpos) (not_lt.2 hzero.1)
  · exact absurd (hodd.pow_neg_iff.1 hneg) (not_lt.2 hzero.2)

theorem inverse_odd_encloses_iff (somewhere_in : Within somewhere i) (hlh : l ≤ h)
    (odd : k % 2 = 1) :
    (∀ x : ℚ, l ≤ x ∧ x ≤ h → x ≠ 0 →
      (div (between 1 1 i) (powNat (between l h i) k)).contains
        (.rational (1 / x ^ (k + 1))) = true) ↔
      (l ≤ 0 ∧ 0 ≤ h) ∨ l = 1 ∧ h = 1 := by
  constructor
  · intro hall
    rw [or_iff_not_imp_left, not_and_or, not_le, not_le]
    intro clear
    refine eq_one_of_inverse_odd somewhere_in hlh clear odd fun x hx => hall x hx ?_
    rcases clear with hpos | hneg
    · exact (hpos.trans_le hx.1).ne'
    · exact (hx.2.trans_lt hneg).ne
  · rintro (hzero | ⟨rfl, rfl⟩) x hx -
    · rw [inverse_odd_around_zero somewhere_in hzero odd]
      exact everything_encloses _
    · obtain rfl : x = 1 := le_antisymm hx.2 hx.1
      rw [pow_succ, mul_one]
      exact inverse_encloses somewhere_in hx k

theorem zpow_least (x : ℚ) : x ^ Int32.minValue.toInt = 1 / x ^ (greatestExponent + 1) :=
  zpow_of_neg x (by decide)

/-- The least exponent inverts the power with the greatest. -/
theorem powInt_least (hi : i ≠ 0) : powInt (between l h i) Int32.minValue =
    div (between 1 1 i) (powNat (between l h i) greatestExponent) :=
  powInt_of_neg hi (by decide)

theorem powInt_least_encloses_iff (somewhere_in : Within somewhere i) (hlh : l ≤ h) :
    (∀ x : ℚ, l ≤ x ∧ x ≤ h → x ≠ 0 →
      (powInt (between l h i) Int32.minValue).contains
        (.rational (x ^ Int32.minValue.toInt)) = true) ↔
      (l ≤ 0 ∧ 0 ≤ h) ∨ l = 1 ∧ h = 1 := by
  have odd : greatestExponent % 2 = 1 := by decide
  simp only [powInt_least (ne_zero_of_somewhere somewhere_in), zpow_least]
  exact inverse_odd_encloses_iff somewhere_in hlh odd

/-! ### All exponents -/

/-- A power with a 32-bit exponent is defined, and holds the powers of all numbers of its base, save
for the least exponent: there it holds them if and only if zero is among the numbers or one is the
only number. -/
theorem powInt_encloses_iff {a : Interval Exact} (ha : a.Proper) (n : Int32) :
    (powInt a n).isDefined = true ∧
    ((∀ x : ℚ, a.contains (.rational x) = true → (n < 0 → x ≠ 0) →
        (powInt a n).contains (.rational (x ^ n.toInt)) = true) ↔
      (n = Int32.minValue → a.contains (.rational 0) = true ∨
        a.lo = .rational 1 ∧ a.hi = .rational 1)) := by
  obtain ⟨l, h, i, rfl, hlh, hsomewhere⟩ := ha
  have somewhere_in : Within somewhere i := has_somewhere_iff.1 hsomewhere
  have hi : i ≠ 0 := ne_zero_of_somewhere somewhere_in
  refine ⟨powInt_isDefined somewhere_in hlh n, ?_⟩
  by_cases hn : n = Int32.minValue
  · subst hn
    have hneg : Int32.minValue < 0 := by decide
    have hiff := powInt_least_encloses_iff somewhere_in hlh
    constructor
    · intro hall _
      have hends := hiff.1 fun x hx hzero => hall x (contains_between.2 ⟨hi, hx⟩) fun _ => hzero
      exact hends.imp (fun hzero => contains_between.2 ⟨hi, hzero⟩)
        fun hone => ⟨congrArg _ hone.1, congrArg _ hone.2⟩
    · intro hends x hx hzero
      refine hiff.2 ?_ x (contains_between.1 hx).2 (hzero hneg)
      exact (hends rfl).imp (fun hzero => (contains_between.1 hzero).2)
        fun hone => ⟨rational.inj hone.1, rational.inj hone.2⟩
  · refine iff_of_true (fun x hx _ => ?_) fun hleast => absurd hleast hn
    exact powInt_encloses somewhere_in (contains_between.1 hx).2 hn

/-- Minus one has the power one with the least exponent, which is even, and is given as its own
power, be it as exact numbers or as doubles. -/
theorem powInt_minusOne_least :
    (between (-1) (-1) all).Proper ∧
    (between (-1) (-1) all).contains (.rational (-1)) = true ∧
    (-1 : ℚ) ^ Int32.minValue.toInt = 1 ∧
    (powInt (between (-1) (-1) all) Int32.minValue).contains
      (.rational ((-1) ^ Int32.minValue.toInt)) = false ∧
    powInt (between (-1) (-1) all) Int32.minValue = between (-1) (-1) all ∧
    powInt (point (-1 : Double)) Int32.minValue = point (-1) := by
  have hone : (-1 : ℚ) ^ Int32.minValue.toInt = 1 := Even.neg_one_zpow (by decide)
  have hpower : powInt (between (-1) (-1) all) Int32.minValue = between (-1) (-1) all := by
    decide +kernel
  refine ⟨⟨-1, -1, all, rfl, le_rfl, by decide⟩, by decide +kernel, hone, ?_, hpower,
    by decide +kernel⟩
  rw [hone, hpower]
  decide +kernel

/-- A range of negative numbers, with the least exponent that has an opposite. -/
theorem powInt_negative_encloses : (between (-4) (-2) all).Proper ∧
    (powInt (between (-4) (-2) all) (-2147483647)).isDefined = true ∧
    (powInt (between (-4) (-2) all) (-2147483647)).contains
      (.rational ((-3) ^ (-2147483647 : Int32).toInt)) = true := by
  have ha : (between (-4) (-2) all).Proper := ⟨-4, -2, all, rfl, by norm_num, by decide⟩
  obtain ⟨hdefined, hiff⟩ := powInt_encloses_iff ha (-2147483647)
  refine ⟨ha, hdefined, hiff.2 ?_ (-3) (by decide +kernel) fun _ => by norm_num⟩
  exact fun hleast => absurd hleast (by decide)

end Formula.Interval
