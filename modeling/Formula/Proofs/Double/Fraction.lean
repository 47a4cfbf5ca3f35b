import Formula.Proofs.Double.Difference
import Formula.Proofs.Double.Whole
/-!
The parts of a double before and behind the point. Nothing stands behind the point of a finite
double if and only if it is an integer; of what is not finite there is no fractional part.
-/

namespace Formula.Double

open Float.Model UnpackedFloat

variable {x : Double}

/-- The digits of the mantissa that stand behind the point, for a number from one on. -/
def places (x : Double) : Nat :=
  1075 - x.field.toNat

theorem trunc_of_lt (h : x.field.toNat < 1023) : x.trunc = ofMagnitude x.isNegative 0 := by
  rw [toNat_field] at h
  simp only [trunc, if_pos h]

theorem trunc_of_le (h : 1023 ≤ x.field.toNat) :
    x.trunc = ofMagnitude x.isNegative (x.magnitude / 2 ^ x.places * 2 ^ x.places) := by
  rw [toNat_field] at h
  simp only [trunc, if_neg (Nat.not_lt.2 h), places, toNat_field]
  rfl

/-- The digits behind the point are dropped from the mantissa, and nothing else changes. -/
theorem magnitude_trunc (h : 1023 ≤ x.field.toNat) : x.trunc.magnitude =
    x.field.toNat * 2 ^ 52 + x.stored.toNat / 2 ^ x.places * 2 ^ x.places := by
  have hdvd : 2 ^ x.places ∣ x.field.toNat * 2 ^ 52 :=
    Nat.dvd_mul_left_of_dvd (Nat.pow_dvd_pow 2 (by unfold places; omega)) _
  have hfield : x.field.toNat < 2 ^ 11 := x.field.isLt
  have hstored : x.stored.toNat < 2 ^ 52 := x.stored.isLt
  have hvalue : x.magnitude / 2 ^ x.places * 2 ^ x.places =
      x.field.toNat * 2 ^ 52 + x.stored.toNat / 2 ^ x.places * 2 ^ x.places := by
    rw [magnitude_eq, Nat.add_div_of_dvd_right hdvd, Nat.add_mul, Nat.div_mul_cancel hdvd]
  have hle := Nat.div_mul_le_self x.stored.toNat (2 ^ x.places)
  have hbit : signBit = 2 ^ 63 := rfl
  rw [trunc_of_le h, magnitude_ofMagnitude (by omega), hvalue]

theorem field_trunc (h : 1023 ≤ x.field.toNat) : x.trunc.field = x.field := by
  have hstored : x.stored.toNat < 2 ^ 52 := x.stored.isLt
  have hle := Nat.div_mul_le_self x.stored.toNat (2 ^ x.places)
  have hbit : normalBit = 2 ^ 52 := rfl
  rw [← BitVec.toNat_inj, toNat_field x.trunc, magnitude_trunc h, hbit]
  omega

theorem stored_trunc (h : 1023 ≤ x.field.toNat) :
    x.trunc.stored.toNat = x.stored.toNat / 2 ^ x.places * 2 ^ x.places := by
  have hstored : x.stored.toNat < 2 ^ 52 := x.stored.isLt
  have hle := Nat.div_mul_le_self x.stored.toNat (2 ^ x.places)
  have hbit : normalBit = 2 ^ 52 := rfl
  rw [toNat_stored x.trunc, magnitude_trunc h, hbit]
  omega

theorem sign_trunc (h : 1023 ≤ x.field.toNat) : x.trunc.sign = x.sign := by
  have hle := Nat.div_mul_le_self x.magnitude (2 ^ x.places)
  have hlt : x.magnitude < signBit := Nat.mod_lt _ (by decide)
  rw [sign_eq, sign_eq, trunc_of_le h, isNegative_ofMagnitude (Nat.lt_of_le_of_lt hle hlt)]

theorem isFinite_trunc (hx : x.isFinite = true) : x.trunc.isFinite = true := by
  rcases Nat.lt_or_ge x.field.toNat 1023 with hlt | hle
  · rw [trunc_of_lt hlt]
    exact isFinite_ofMagnitude (by decide) _
  · rw [isFinite_iff, field_trunc hle]
    exact isFinite_iff.1 hx

/-- Below one only zero is an integer. -/
theorem whole_iff_of_lt (h : x.field.toNat < 1023) : x.Whole ↔ x.magnitude = 0 := by
  rw [whole_iff_fields, magnitude_eq_zero_iff]
  by_cases hfield : x.field = 0
  · rw [Rounding.wholeFields_of_eq_zero hfield, and_iff_right hfield]
  · rw [Rounding.wholeFields_of_ne_zero hfield]
    refine iff_of_false (fun hintegral => ?_) fun hzero => hfield hzero.1
    have hle := hintegral.le_log2 (Nat.add_pos_left (Nat.two_pow_pos 52) _)
    rw [Rounding.log2_stored x.stored.isLt] at hle
    omega

theorem field_ne_zero_of_le (h : 1023 ≤ x.field.toNat) : x.field ≠ 0 := by
  intro hzero
  rw [hzero] at h
  exact absurd h (by decide)

/-- From one on a number is an integer if it has only zeros behind the point. -/
theorem whole_iff_of_le (h : 1023 ≤ x.field.toNat) :
    x.Whole ↔ x.stored.toNat / 2 ^ x.places * 2 ^ x.places = x.stored.toNat := by
  have hplaces : (-((x.field.toNat : Int) - 1075)).toNat = x.places := by
    unfold places
    omega
  have hdvd : 2 ^ x.places ∣ 2 ^ 52 := Nat.pow_dvd_pow 2 (by unfold places; omega)
  rw [whole_iff_fields, Rounding.wholeFields_of_ne_zero (field_ne_zero_of_le h),
    Rounding.Integral, hplaces, Nat.dvd_add_right hdvd]
  exact ⟨Nat.div_mul_cancel, fun heq => heq ▸ Nat.dvd_mul_left _ _⟩

theorem unpack_trunc (hx : x.isFinite = true) (h : 1023 ≤ x.field.toNat) : x.trunc.unpack =
    .finite x.sign x.trunc.mantissa (x.field.toNat - 1075) x.trunc.mantissa_pos := by
  have hfield : x.trunc.field ≠ 0 := field_trunc h ▸ field_ne_zero_of_le h
  rw [unpack_of_field_ne_zero (isFinite_trunc hx) hfield, sign_trunc h, field_trunc h]

/-- Below one nothing stands before the point. -/
theorem magnitude_fract_of_lt (hx : x.isFinite = true) (h : x.field.toNat < 1023) :
    x.fract.magnitude = 0 ↔ x.magnitude = 0 := by
  have htrunc := isFinite_trunc hx
  have hzero : x.trunc.unpack = .zero x.trunc.sign := by
    refine unpack_of_magnitude_eq_zero ?_
    rw [trunc_of_lt h, magnitude_ofMagnitude (by decide)]
  constructor
  · intro hfract
    by_contra hne
    refine magnitude_sub_ne_zero hx htrunc ?_ hfract
    rw [hzero]
    exact Rounding.nonzero_sub_zero (nonzero_unpack hx hne)
  · intro hmagnitude
    have hsub := Rounding.sub_zeros x.sign x.trunc.sign
    rw [← hzero, ← unpack_of_magnitude_eq_zero hmagnitude] at hsub
    exact magnitude_sub_eq_zero hx htrunc hsub

/-- From one on the whole part has the same sign and exponent, so that only mantissas are
subtracted. -/
theorem magnitude_fract_of_le (hx : x.isFinite = true) (h : 1023 ≤ x.field.toNat) :
    x.fract.magnitude = 0 ↔ x.trunc.stored.toNat = x.stored.toNat := by
  have htrunc := isFinite_trunc hx
  have hunpack := unpack_of_field_ne_zero hx (field_ne_zero_of_le h)
  constructor
  · intro hfract
    by_contra hne
    refine magnitude_sub_ne_zero hx htrunc ?_ hfract
    rw [hunpack, unpack_trunc hx h]
    refine Rounding.nonzero_sub (by omega) ?_
    rw [mantissa_eq, mantissa_eq]
    omega
  · intro hstored
    have hmantissa : x.trunc.mantissa = x.mantissa := by
      rw [mantissa_eq, mantissa_eq, hstored]
    have hsub := Rounding.sub_self x.sign (x.field.toNat - 1075) x.mantissa_pos
    refine magnitude_sub_eq_zero hx htrunc (Eq.trans ?_ hsub)
    rw [hunpack, unpack_trunc hx h]
    simp only [hmantissa]

/-- A finite number has nothing behind the point if and only if it is an integer. -/
theorem magnitude_fract_eq_zero_iff (hx : x.isFinite = true) :
    x.fract.magnitude = 0 ↔ x.Whole := by
  rcases Nat.lt_or_ge x.field.toNat 1023 with hlt | hle
  · rw [magnitude_fract_of_lt hx hlt, whole_iff_of_lt hlt]
  · rw [magnitude_fract_of_le hx hle, stored_trunc hle, whole_iff_of_le hle]

/-- The fractional part of what is not finite is no number, and so not equal to zero. -/
theorem fract_eq_zero_of_not_finite (h : x.isFinite = false) : x.fract.eq 0 = false := by
  cases hnan : x.isNaN with
  | true =>
    have hfract : x.fract = x := if_pos hnan
    simp [hfract, eq, related, hnan]
  | false =>
    have hle : infinityBits ≤ x.magnitude := Nat.not_lt.1 (of_decide_eq_false h)
    have hge : x.magnitude ≤ infinityBits := Nat.not_lt.1 (of_decide_eq_false hnan)
    rw [← ofMagnitude_magnitude x, Nat.le_antisymm hge hle]
    cases x.isNegative <;> decide +kernel

/-- The fractional part of a double is equal to zero if and only if the double is an integer. -/
theorem fract_eq_zero_iff : x.fract.eq 0 = true ↔ x.Whole ∧ x.isFinite = true := by
  cases hx : x.isFinite with
  | true => rw [eq_zero_iff, magnitude_fract_eq_zero_iff hx, and_iff_left rfl]
  | false => simp [fract_eq_zero_of_not_finite hx]

end Formula.Double
