import Formula.Decimal.Binary
import Mathlib.Algebra.Group.Nat.Defs
/-!
The bits of doubles: the sign and the magnitude, and in it those of the exponent and of the
mantissa.
-/

namespace Formula.Double

open Float.Model

variable {x : Double}

/-- A magnitude below the bit of the sign is kept. -/
theorem magnitude_ofMagnitude {m : Nat} (hm : m < signBit) (negative : Bool) :
    (ofMagnitude negative m).magnitude = m := by
  have hbit : signBit = 2 ^ 63 := rfl
  rw [hbit] at hm
  cases negative <;>
    simp only [magnitude, ofMagnitude, UInt64.toNat_ofNat', hbit, Bool.false_eq_true, if_true,
      if_false] <;>
    omega

/-- The bits of a double are those of its sign and its magnitude. -/
theorem ofMagnitude_magnitude (x : Double) : ofMagnitude x.isNegative x.magnitude = x := by
  have hlt := x.bits.toNat_lt
  have hbits : (ofMagnitude x.isNegative x.magnitude).bits = x.bits := by
    rw [← UInt64.toNat_inj]
    simp only [ofMagnitude, isNegative, magnitude, UInt64.toNat_ofNat', decide_eq_true_eq]
    have hbit : signBit = 2 ^ 63 := rfl
    rw [hbit]
    split <;> omega
  cases x
  exact congrArg Double.mk hbits

theorem isNegative_ofMagnitude {m : Nat} (hm : m < signBit) (negative : Bool) :
    (ofMagnitude negative m).isNegative = negative := by
  have hbit : signBit = 2 ^ 63 := rfl
  rw [hbit] at hm
  cases negative <;>
    simp only [isNegative, ofMagnitude, UInt64.toNat_ofNat', hbit, Bool.false_eq_true, if_true,
      if_false, decide_eq_true_eq, decide_eq_false_iff_not] <;>
    omega

theorem isFinite_ofMagnitude {m : Nat} (hm : m < infinityBits) (negative : Bool) :
    (ofMagnitude negative m).isFinite := by
  have hsign : infinityBits < signBit := by decide
  simpa [isFinite, magnitude_ofMagnitude (Nat.lt_trans hm hsign)] using hm

theorem isNaN_of_isFinite (h : x.isFinite = true) : x.isNaN = false :=
  decide_eq_false (Nat.lt_asymm (of_decide_eq_true h))

/-- The bits of the exponent. -/
def field (x : Double) : BitVec 11 :=
  @UnpackedFloat.unpackExponent Format.binary64 x.bits.toBitVec

/-- The bits of the mantissa that are stored. -/
def stored (x : Double) : BitVec 52 :=
  @UnpackedFloat.unpackMantissa Format.binary64 x.bits.toBitVec

theorem toNat_unpackSign (b : BitVec 64) :
    (@UnpackedFloat.unpackSign Format.binary64 b).toNat = b.toNat / 2 ^ 63 := by
  have hbits : (@UnpackedFloat.unpackSign Format.binary64 b).toNat = (b.toNat >>> 63) % 2 := rfl
  rw [hbits, Nat.shiftRight_eq_div_pow]
  omega

theorem toNat_unpackExponent (b : BitVec 64) :
    (@UnpackedFloat.unpackExponent Format.binary64 b).toNat = b.toNat / 2 ^ 52 % 2 ^ 11 := by
  have hbits : (@UnpackedFloat.unpackExponent Format.binary64 b).toNat =
      (b.toNat >>> 52) % 2 ^ 11 := rfl
  rw [hbits, Nat.shiftRight_eq_div_pow]

theorem toNat_unpackMantissa (b : BitVec 64) :
    (@UnpackedFloat.unpackMantissa Format.binary64 b).toNat = b.toNat % 2 ^ 52 := by
  have hbits : (@UnpackedFloat.unpackMantissa Format.binary64 b).toNat =
      (b.toNat >>> 0) % 2 ^ 52 := rfl
  rw [hbits, Nat.shiftRight_zero]

theorem toNat_field (x : Double) : x.field.toNat = x.magnitude / normalBit := by
  have hmagnitude : x.magnitude / normalBit = x.bits.toBitVec.toNat % 2 ^ 63 / 2 ^ 52 := rfl
  rw [field, toNat_unpackExponent, hmagnitude]
  omega

theorem toNat_stored (x : Double) : x.stored.toNat = x.magnitude % normalBit := by
  have hmagnitude : x.magnitude % normalBit = x.bits.toBitVec.toNat % 2 ^ 63 % 2 ^ 52 := rfl
  rw [stored, toNat_unpackMantissa, hmagnitude]
  omega

theorem magnitude_eq (x : Double) : x.magnitude = x.field.toNat * 2 ^ 52 + x.stored.toNat := by
  rw [toNat_field, toNat_stored]
  exact (Nat.div_add_mod' x.magnitude normalBit).symm

theorem magnitude_eq_zero_iff : x.magnitude = 0 ↔ x.field = 0 ∧ x.stored = 0 := by
  have hfield : x.field = 0 ↔ x.field.toNat = 0 := BitVec.toNat_inj.symm
  have hstored : x.stored = 0 ↔ x.stored.toNat = 0 := BitVec.toNat_inj.symm
  rw [hfield, hstored, magnitude_eq]
  omega

theorem magnitude_neg (x : Double) : (-x).magnitude = x.magnitude :=
  magnitude_ofMagnitude (Nat.mod_lt _ (by decide)) _

theorem isFinite_neg (x : Double) : (-x).isFinite = x.isFinite := by
  rw [isFinite, isFinite, magnitude_neg]

theorem field_neg (x : Double) : (-x).field = x.field := by
  rw [← BitVec.toNat_inj, toNat_field, toNat_field, magnitude_neg]

theorem stored_neg (x : Double) : (-x).stored = x.stored := by
  rw [← BitVec.toNat_inj, toNat_stored, toNat_stored, magnitude_neg]

theorem isFinite_iff : x.isFinite = true ↔ x.field ≠ -1 := by
  have hfield := toNat_field x
  have hlt : x.magnitude < infinityBits ↔ x.magnitude / normalBit < 2047 :=
    (Nat.div_lt_iff_lt_mul (by decide)).symm
  rw [isFinite, decide_eq_true_iff, hlt, ← hfield]
  have hbound : x.field.toNat < 2048 := x.field.isLt
  have hspecial : x.field = -1 ↔ x.field.toNat = 2047 := BitVec.toNat_inj.symm
  rw [ne_eq, hspecial]
  omega

/-- A finite number by the bits of its exponent and mantissa. -/
theorem ofDouble_eq (h : x.isFinite = true) : Binary.ofDouble x =
    if x.field = 0 then .finite x.isNegative x.stored.toNat Binary.leastExponent
    else .finite x.isNegative (2 ^ 52 + x.stored.toNat) (x.field.toNat - 1075) := by
  have hlt : x.magnitude < infinityBits := of_decide_eq_true h
  have hnan : ¬x.isNaN = true := fun h => Nat.lt_asymm hlt (of_decide_eq_true h)
  have hinfinite : ¬x.isInfinite = true := fun h => Nat.ne_of_lt hlt (eq_of_beq h)
  simp only [Binary.ofDouble, if_neg hnan, if_neg hinfinite, ← toNat_field, ← toNat_stored]
  have hzero : x.field = 0 ↔ x.field.toNat = 0 := BitVec.toNat_inj.symm
  by_cases hx : x.field = 0
  · rw [if_pos hx, if_pos (hzero.1 hx)]
  · have hexponent : Binary.leastExponent + ((x.field.toNat : Int) - 1) = x.field.toNat - 1075 := by
      unfold Binary.leastExponent
      omega
    have hmantissa : x.stored.toNat + normalBit = 2 ^ 52 + x.stored.toNat := Nat.add_comm _ _
    rw [if_neg hx, if_neg (mt hzero.2 hx), hexponent, hmantissa]

theorem ofDouble_of_not_finite (h : x.isFinite = false) :
    Binary.ofDouble x = .nan ∨ Binary.ofDouble x = .infinite x.isNegative := by
  have hle : infinityBits ≤ x.magnitude := Nat.not_lt.1 (of_decide_eq_false h)
  by_cases hnan : x.isNaN = true
  · exact .inl (by simp only [Binary.ofDouble, if_pos hnan])
  · have hge : x.magnitude ≤ infinityBits :=
      Nat.not_lt.1 (of_decide_eq_false (Bool.eq_false_iff.2 hnan))
    have hinfinite : x.isInfinite = true := beq_iff_eq.2 (Nat.le_antisymm hge hle)
    exact .inr (by simp only [Binary.ofDouble, if_neg hnan, if_pos hinfinite])

end Formula.Double
