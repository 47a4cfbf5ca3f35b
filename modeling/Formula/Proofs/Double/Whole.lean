import Formula.Interval.Endpoint
import Formula.Power
import Formula.Proofs.Double.Bits
import Formula.Proofs.Double.Rounding
/-!
Doubles that are integers if they are finite: they are closed under sums, differences, products and
powers, and every integer has such a double.
-/

namespace Formula

open Float.Model

namespace Rounding

/-- A number of the machine is an integer, or it is not finite. -/
def WholeFloat (a : Float) : Prop :=
  Whole a.toModel.unpack

variable {a b : Float}

theorem wholeFloat_pack {f : UnpackedFloat} (h : Whole f) : WholeFloat (.ofModel (.pack f)) :=
  whole_unpack_pack h

theorem WholeFloat.add (ha : WholeFloat a) (hb : WholeFloat b) : WholeFloat (a + b) :=
  wholeFloat_pack (whole_add ha hb)

theorem WholeFloat.sub (ha : WholeFloat a) (hb : WholeFloat b) : WholeFloat (a - b) :=
  wholeFloat_pack (whole_sub ha hb)

theorem WholeFloat.mul (ha : WholeFloat a) (hb : WholeFloat b) : WholeFloat (a * b) :=
  wholeFloat_pack (whole_mul ha hb)

theorem WholeFloat.neg (ha : WholeFloat a) : WholeFloat a.neg :=
  wholeFloat_pack (whole_neg ha)

theorem wholeFloat_one : WholeFloat (.ofBits 0x3FF0000000000000) := by
  have hfields : WholeFields 1023 0 :=
    (wholeFields_of_ne_zero (by decide)).2 (Nat.dvd_refl (2 ^ 52))
  exact wholeFloat_pack ((whole_unpack_iff _).2 hfields)

theorem wholeFloat_ofUInt64 (n : UInt64) : WholeFloat n.toFloat :=
  wholeFloat_pack (whole_normalize (integral_of_nonneg (Int.le_refl 0)))

/-- A natural number is rounded as a product with one, whose mantissa is made long enough before. -/
theorem whole_ofScientific (n : Nat) :
    Whole (UnpackedFloat.ofScientific Format.binary64 n (Int.ofNat 0)) := by
  fun_cases UnpackedFloat.ofScientific with
  | case4 hn =>
    have hproduct := (integral_shiftLeft n Format.binary64.mantissaBits).mul
      (@integral_of_nonneg (10 ^ (Int.ofNat 0).toNat) _ (Int.le_refl 0))
    refine whole_mul_finite _ _ ?_ hproduct
    have hone : 10 ^ (Int.ofNat 0).toNat = 1 := rfl
    have hbits : Format.binary64.mantissaBits = 53 := rfl
    rw [hone, hbits, Nat.mul_one, log2_shiftLeft (Nat.pos_of_ne_zero hn)]
    exact Nat.le_add_left_of_le (by decide)
  | case5 _ _ _ hneg => exact absurd (Int.le_refl 0) hneg
  | case2 => exact .infinity
  | _ => exact .zero

theorem wholeFloat_ofNat (n : Nat) : WholeFloat (.ofNat n) := by
  show WholeFloat (Float.ofScientific n false 0)
  unfold Float.ofScientific
  split
  case isTrue => exact (wholeFloat_ofUInt64 n.toUInt64).mul wholeFloat_one
  case isFalse => exact wholeFloat_pack (whole_ofScientific n)

theorem wholeFloat_ofInt (n : Int) : WholeFloat (.ofInt n) := by
  cases n with
  | ofNat n => exact wholeFloat_ofNat n
  | negSucc n => exact (wholeFloat_ofNat (n + 1)).neg

end Rounding

namespace Double

/-- A finite number is an integer. -/
def Whole (x : Double) : Prop :=
  x.isFinite = true → (Endpoint.toInt? x).isSome = true

variable {x y : Double}

theorem whole_of_not_finite (h : x.isFinite = false) : x.Whole := by
  intro hfinite
  rw [h] at hfinite
  cases hfinite

theorem whole_of_isNaN (h : x.isNaN = true) : x.Whole := by
  intro hfinite
  rw [isNaN_of_isFinite hfinite] at h
  cases h

theorem isSome_toInt?_finite {negative : Bool} {m : Nat} {q : Int} :
    (Binary.toInt? (.finite negative m q)).isSome = true ↔ m = 0 ∨ Rounding.Integral m q := by
  simp only [Binary.toInt?, Option.isSome_map]
  by_cases hm : m = 0
  · simp [hm]
  · rw [if_neg hm, or_iff_right hm]
    by_cases hq : 0 ≤ q
    · rw [if_pos hq]
      exact iff_of_true rfl (Rounding.integral_of_nonneg hq)
    · rw [if_neg hq, Rounding.Integral, Nat.dvd_iff_mod_eq_zero]
      show _ ↔ m % Nat.pow 2 (-q).toNat = 0
      split <;> simp_all

/-- A number without the leading digit is zero if it is an integer. -/
theorem eq_zero_of_subnormal {m : Nat} (hm : m < 2 ^ 52)
    (h : Rounding.Integral m Binary.leastExponent) : m = 0 := by
  rcases Nat.eq_zero_or_pos m with hzero | hpos
  · exact hzero
  · have hlong : 1074 ≤ (m.log2 : Int) := h.le_log2 hpos
    have hshort : m.log2 < 52 := (Nat.log2_lt (Nat.ne_of_gt hpos)).2 hm
    omega

theorem whole_iff_fields : x.Whole ↔ Rounding.WholeFields x.field x.stored := by
  by_cases hfinite : x.isFinite = true
  · have hinteger : Endpoint.toInt? x = (Binary.ofDouble x).toInt? := rfl
    rw [Whole, imp_iff_right hfinite, hinteger, ofDouble_eq hfinite]
    split
    case isTrue hzero =>
      have hstored : x.stored = 0 ↔ x.stored.toNat = 0 := BitVec.toNat_inj.symm
      rw [isSome_toInt?_finite, Rounding.wholeFields_of_eq_zero hzero, hstored]
      exact or_iff_left_of_imp (eq_zero_of_subnormal x.stored.isLt)
    case isFalse hne =>
      rw [isSome_toInt?_finite, Rounding.wholeFields_of_ne_zero hne]
      exact or_iff_right (by omega)
  · have hspecial : x.field = -1 := Decidable.not_not.1 (mt isFinite_iff.2 hfinite)
    exact iff_of_true (whole_of_not_finite (Bool.not_eq_true _ ▸ hfinite))
      (Rounding.wholeFields_of_special hspecial)

theorem whole_iff : x.Whole ↔
    Rounding.Whole (UnpackedFloat.unpack Format.binary64 x.bits.toBitVec) :=
  whole_iff_fields.trans (Rounding.whole_unpack_iff _).symm

/-! ### Operations -/

theorem Whole.toFloat (h : x.Whole) : Rounding.WholeFloat x.toFloat :=
  Rounding.wholeFloat_pack (whole_iff.1 h)

theorem whole_ofFloat {a : Float} (h : Rounding.WholeFloat a) : (ofFloat a).Whole :=
  whole_iff.2 h

/-- An operation on two numbers that keeps integers, as it is done on doubles. -/
theorem whole_lift₂ {f : Float → Float → Float}
    (hf : Rounding.WholeFloat (f x.toFloat y.toFloat)) : (lift₂ f x y).Whole := by
  unfold lift₂
  split
  case isTrue h => exact whole_of_isNaN h
  case isFalse =>
    split
    case isTrue h => exact whole_of_isNaN h
    case isFalse => exact whole_ofFloat hf

theorem Whole.add (hx : x.Whole) (hy : y.Whole) : (x + y).Whole :=
  whole_lift₂ (hx.toFloat.add hy.toFloat)

theorem Whole.sub (hx : x.Whole) (hy : y.Whole) : (x - y).Whole :=
  whole_lift₂ (hx.toFloat.sub hy.toFloat)

theorem Whole.mul (hx : x.Whole) (hy : y.Whole) : (x * y).Whole :=
  whole_lift₂ (hx.toFloat.mul hy.toFloat)

theorem Whole.neg (hx : x.Whole) : (-x).Whole := by
  rw [whole_iff_fields] at hx ⊢
  rwa [field_neg, stored_neg]

theorem Whole.powerOnto {acc base : Double} (hacc : acc.Whole) (hbase : base.Whole)
    (fuel k : Nat) : (Formula.powerOnto fuel acc base k).Whole := by
  induction fuel generalizing acc base k with
  | zero => exact hacc
  | succ fuel ih =>
    have hnext : (if k % 2 = 1 then acc * base else acc).Whole := by
      split
      · exact hacc.mul hbase
      · exact hacc
    unfold Formula.powerOnto
    simp only []
    split
    · exact hnext
    · exact ih hnext (hbase.mul hbase) (k / 2)

/-- Every integer has a double that is an integer, or none that is finite. -/
theorem whole_ofInt (n : Int) : (ofInt n).Whole :=
  whole_ofFloat (Rounding.wholeFloat_ofInt n)

end Double

end Formula
