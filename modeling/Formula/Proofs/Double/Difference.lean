import Formula.Proofs.Double.Bits
import Formula.Proofs.Double.Rounding
/-!
Differences of finite doubles. They are computed on what is unpacked, and as the least doubles are
as far apart as all others near them, what is not zero before rounding is not zero after it.
-/

namespace Formula

open Float.Model UnpackedFloat

namespace Rounding

variable {m n : Nat} {e : Int} {s : Sign} {f : UnpackedFloat}

/-! ### Results that are not zero -/

/-- A mantissa that is not zero, of at most 53 digits, none of them below those of the least
positive double. -/
structure Fits (m : Nat) (e : Int) : Prop where
  pos : 0 < m
  short : m < 2 ^ 53
  least : -1074 ≤ e

/-- A number other than zero that packing can store. -/
inductive Nonzero : UnpackedFloat → Prop
  | finite {s m e pos} (fits : Fits m e) : Nonzero (.finite s m e pos)

/-- Digits are only dropped behind the first 53. -/
theorem fits_shiftToTargetExponent (hm : 0 < m) (he : -1074 ≤ e) :
    Fits (shiftToTargetExponent Format.binary64 m e .exact).1.mantissa
      (shiftToTargetExponent Format.binary64 m e .exact).2 := by
  have hshift : (Format.binary64.targetExponent (totalExponent m e) - e).toNat = m.log2 - 52 := by
    simp only [Format.targetExponent, totalExponent, Format.mantissaBits, Format.minExponent]
    omega
  simp only [shiftToTargetExponent, shiftToExponent, hshift, mantissa_dropped]
  by_cases hlong : 52 ≤ m.log2
  · have hlog := log2_div hlong
    have hpos := pos_of_log2 (Nat.le_of_eq hlog.symm)
    have hlt := @Nat.lt_log2_self (m / 2 ^ (m.log2 - 52))
    rw [hlog] at hlt
    exact ⟨hpos, hlt, by omega⟩
  · have hnone : m.log2 - 52 = 0 := by omega
    rw [hnone, Nat.pow_zero, Nat.div_one]
    exact ⟨hm, (Nat.log2_lt (Nat.ne_of_gt hm)).1 (by omega), by omega⟩

theorem nonzero_roundWithAccuracy (hm : 0 < m) (he : -1074 ≤ e) :
    Nonzero (roundWithAccuracy Format.binary64 s m e .exact) := by
  have hfirst := fits_shiftToTargetExponent hm he
  have hrounded := Nat.lt_of_lt_of_le hfirst.pos (mantissa_le_roundedMantissa _)
  have hsecond := fits_shiftToTargetExponent hrounded hfirst.least
  simp only [roundWithAccuracy, dif_neg (Nat.ne_of_gt hsecond.pos)]
  exact .finite hsecond

/-- A number from the least exponent on is not rounded to zero. -/
theorem nonzero_round (hm : 0 < m) (he : -1074 ≤ e) :
    Nonzero (UnpackedFloat.round Format.binary64 s m e) := by
  have htarget : -1074 ≤ Format.binary64.targetExponent (totalExponent m e) :=
    Int.le_max_right _ _
  simp only [UnpackedFloat.round, decreaseExponent]
  refine nonzero_roundWithAccuracy ?_ (by omega)
  rw [Nat.shiftLeft_eq]
  exact Nat.mul_pos hm (Nat.two_pow_pos _)

theorem nonzero_normalize {k : Int} (hk : k ≠ 0) (he : -1074 ≤ e) :
    Nonzero (UnpackedFloat.normalize Format.binary64 k e s) := by
  unfold UnpackedFloat.normalize
  split
  case h_1 hlt =>
    have hneg : k < 0 := Int.compare_eq_lt.1 hlt
    exact nonzero_round (by omega) he
  case h_2 heq => exact absurd (Int.compare_eq_eq.1 heq) hk
  case h_3 hgt =>
    have hpos : 0 < k := Int.compare_eq_gt.1 hgt
    exact nonzero_round (by omega) he

theorem apply_sub_apply_ne_zero (h : m ≠ n) : s.apply m - s.apply n ≠ 0 := by
  cases s <;> simp only [Sign.apply] <;> omega

/-- The difference of two numbers of one sign and exponent is zero only if their mantissas agree. -/
theorem nonzero_sub {hm : 0 < m} {hn : 0 < n} (he : -1074 ≤ e) (h : m ≠ n) :
    Nonzero (UnpackedFloat.sub Format.binary64 (.finite s m e hm) (.finite s n e hn)) := by
  have hleast : min e e = e := Int.min_self e
  simp only [UnpackedFloat.sub, decreaseExponent, hleast, Int.sub_self, Int.toNat_zero,
    Nat.shiftLeft_zero]
  exact nonzero_normalize (apply_sub_apply_ne_zero h) he

theorem nonzero_sub_zero (h : Nonzero f) :
    Nonzero (UnpackedFloat.sub Format.binary64 f (.zero s)) := by
  cases h with
  | finite fits => exact .finite fits

theorem sub_zeros (s t : Sign) : UnpackedFloat.sub Format.binary64 (.zero s) (.zero t) =
    .zero (if s == -t then s else .positive) :=
  (apply_ite UnpackedFloat.zero _ _ _).symm

theorem sub_self (s : Sign) (e : Int) (hm : 0 < m) :
    UnpackedFloat.sub Format.binary64 (.finite s m e hm) (.finite s m e hm) = .zero .positive := by
  simp only [UnpackedFloat.sub, Int.sub_self]
  rfl

/-! ### Packing -/

theorem toBitVec_ofBitVec (b : BitVec 1) : (Sign.ofBitVec b).toBitVec = b := by
  revert b
  decide

/-- A double is the concatenation of its fields. -/
theorem packComponents_eq {b : BitVec 64} {x : BitVec 11} {v : BitVec 52}
    (hx : @unpackExponent Format.binary64 b = x) (hv : @unpackMantissa Format.binary64 b = v) :
    packComponents Format.binary64 (.ofBitVec (@unpackSign Format.binary64 b)) x v = b := by
  apply BitVec.eq_of_toNat_eq
  have hexponent : x.toNat = b.toNat / 2 ^ 52 % 2 ^ 11 := hx ▸ Double.toNat_unpackExponent b
  have hmantissa : v.toNat = b.toNat % 2 ^ 52 := hv ▸ Double.toNat_unpackMantissa b
  rw [packComponents, BitVec.toNat_append, BitVec.toNat_append,
    ← Nat.shiftLeft_add_eq_or_of_lt x.isLt, ← Nat.shiftLeft_add_eq_or_of_lt v.isLt,
    toBitVec_ofBitVec, Double.toNat_unpackSign, hexponent, hmantissa, Nat.shiftLeft_eq,
    Nat.shiftLeft_eq]
  show (b.toNat / 2 ^ 63 * 2 ^ 11 + b.toNat / 2 ^ 52 % 2 ^ 11) * 2 ^ 52 + b.toNat % 2 ^ 52 = _
  omega

theorem ofNat_toNat_self {w : Nat} (v : BitVec w) : BitVec.ofNat w v.toNat = v :=
  (BitVec.ofNat_toNat w v).trans v.setWidth_eq

/-- A mantissa with a leading digit is packed without it. -/
theorem pack_normal {pos : 0 < m} (hm : m.log2 = 52) {biased : Nat}
    (hbiased : (biased : Int) = e + 1075) (hfits : biased + 1 < 2 ^ 11) :
    UnpackedFloat.pack Format.binary64 (.finite s m e pos) =
      packComponents Format.binary64 s (BitVec.ofNat 11 biased) (BitVec.ofNat 52 m) := by
  have hexponent : (e + Format.binary64.exponentBias +
      Format.binary64.mantissaBitsWithoutImplicit).toNat = biased := by
    show (e + 1023 + 52).toNat = biased
    omega
  have hlog : m.log2 + 1 = Format.binary64.mantissaBits := congrArg (· + 1) hm
  simp only [UnpackedFloat.pack, hexponent, if_neg (Nat.not_le.2 hfits), if_pos hlog]

/-- A mantissa without a leading digit is packed as it is. -/
theorem pack_subnormal {pos : 0 < m} (hm : m < 2 ^ 52) :
    UnpackedFloat.pack Format.binary64 (.finite s m (-1074) pos) =
      packComponents Format.binary64 s 0 (BitVec.ofNat 52 m) := by
  have hexponent : ((-1074 : Int) + Format.binary64.exponentBias +
      Format.binary64.mantissaBitsWithoutImplicit).toNat = 1 := rfl
  have hfits : ¬2 ^ Format.binary64.exponentBits ≤ 1 + 1 := by decide
  have hlog : m.log2 + 1 ≠ Format.binary64.mantissaBits :=
    fun h => log2_ne_of_lt hm (Nat.succ.inj h)
  simp only [UnpackedFloat.pack, hexponent, if_neg hfits, if_neg hlog]
  rfl

/-- To unpack and pack again is to change nothing, unless it is not a number. -/
theorem pack_unpack {b : BitVec 64} (h : UnpackedFloat.unpack Format.binary64 b ≠ .notANumber) :
    UnpackedFloat.pack Format.binary64 (UnpackedFloat.unpack Format.binary64 b) = b := by
  revert h
  fun_cases UnpackedFloat.unpack with
  | case1 v x _ _ hx hv => exact fun _ => packComponents_eq hx hv
  | case2 => exact fun h => absurd rfl h
  | case3 v x _ _ _ hx hv => exact fun _ => packComponents_eq hx hv
  | case4 v x e _ _ _ hx _ =>
    intro _
    have hzero : x.toNat = 0 := congrArg BitVec.toNat hx
    have hvalue : e = x.toNat - 1075 := rfl
    have hexponent : e + 1 = -1074 := by omega
    simp only [hexponent, pack_subnormal v.isLt]
    exact packComponents_eq hx (ofNat_toNat_self v).symm
  | case5 v x e _ _ hspecial _ =>
    intro _
    have hvalue : e = x.toNat - 1075 := rfl
    have hfits : x.toNat + 1 < 2 ^ 11 := by
      have hlt : x.toNat < 2 ^ 11 := x.isLt
      have hne : x.toNat ≠ 2047 := fun h => hspecial (BitVec.eq_of_toNat_eq h)
      omega
    have hlog : (1#1 ++ v).toNat.log2 = 52 := by rw [toNat_implicit, log2_stored v.isLt]
    have hmantissa : v = BitVec.ofNat 52 (1#1 ++ v).toNat := by
      apply BitVec.eq_of_toNat_eq
      have hlt : v.toNat < 2 ^ 52 := v.isLt
      rw [toNat_implicit, BitVec.toNat_ofNat]
      show v.toNat = (2 ^ 52 + v.toNat) % 2 ^ 52
      omega
    rw [pack_normal hlog (by omega) hfits]
    exact packComponents_eq (ofNat_toNat_self x).symm hmantissa

/-- Only zero has no bits but that of the sign. -/
theorem pack_nonzero (h : Nonzero f) :
    ¬(@unpackExponent Format.binary64 (UnpackedFloat.pack Format.binary64 f) = 0 ∧
      @unpackMantissa Format.binary64 (UnpackedFloat.pack Format.binary64 f) = 0) := by
  rintro ⟨hexponent, hmantissa⟩
  revert h hexponent hmantissa
  fun_cases UnpackedFloat.pack with
  | case4 s m e =>
    intro _ hexponent _
    rw [packedInfinity, unpackExponent_packComponents] at hexponent
    exact absurd hexponent (by decide)
  | case5 s m e pos _ biased hbiased hlog =>
    rintro ⟨⟨-, hshort, hleast⟩⟩ hexponent _
    rw [unpackExponent_packComponents] at hexponent
    have hvalue : biased = (e + 1023 + 52).toNat := rfl
    have hfits : ¬2 ^ 11 ≤ biased + 1 := hbiased
    have hzero : biased % 2 ^ 11 = 0 := congrArg BitVec.toNat hexponent
    omega
  | case6 s m e pos _ biased hbiased hlog =>
    rintro ⟨⟨-, hshort, hleast⟩⟩ _ hmantissa
    rw [unpackMantissa_packComponents] at hmantissa
    have hzero : m % 2 ^ 52 = 0 := congrArg BitVec.toNat hmantissa
    have hlt : m.log2 < 52 := by
      have hle : m.log2 < 53 := (Nat.log2_lt (Nat.ne_of_gt pos)).2 hshort
      have hne : m.log2 + 1 ≠ 53 := hlog
      omega
    have hsmall := (Nat.log2_lt (Nat.ne_of_gt pos)).1 hlt
    omega
  | _ => exact fun h => nomatch h

end Rounding

namespace Double

variable {x y : Double}

/-! ### Unpacked numbers -/

/-- What the machine calculates with. -/
def unpack (x : Double) : UnpackedFloat :=
  UnpackedFloat.unpack Format.binary64 x.bits.toBitVec

/-- The sign that is unpacked. -/
def sign (x : Double) : Sign :=
  Sign.ofBitVec (@unpackSign Format.binary64 x.bits.toBitVec)

/-- The mantissa of a number that has the leading digit. -/
def mantissa (x : Double) : Nat :=
  (1#1 ++ x.stored).toNat

theorem mantissa_eq (x : Double) : x.mantissa = 2 ^ 52 + x.stored.toNat :=
  Rounding.toNat_implicit x.stored

theorem mantissa_pos (x : Double) : 0 < x.mantissa :=
  mantissa_eq x ▸ Nat.add_pos_left (Nat.two_pow_pos 52) _

theorem sign_eq (x : Double) : x.sign = if x.isNegative then .negative else .positive := by
  have hlt := x.bits.toNat_lt
  have hbits : @unpackSign Format.binary64 x.bits.toBitVec = 0#1 ↔ ¬x.isNegative = true := by
    rw [← BitVec.toNat_inj, toNat_unpackSign, isNegative, decide_eq_true_iff]
    show x.bits.toNat / 2 ^ 63 = 0 ↔ ¬2 ^ 63 ≤ x.bits.toNat
    omega
  rw [sign, Sign.ofBitVec]
  simp only [hbits]
  cases x.isNegative <;> rfl

theorem unpack_of_magnitude_eq_zero (h : x.magnitude = 0) : x.unpack = .zero x.sign := by
  obtain ⟨hfield, hstored⟩ := magnitude_eq_zero_iff.1 h
  have hfields : x.unpack = if x.field = -1 then _ else if x.field = 0 then
      if h : x.stored = 0 then .zero x.sign else _ else _ := rfl
  rw [hfields, hfield, if_neg (by decide), if_pos rfl, dif_pos hstored]

theorem unpack_of_field_ne_zero (hfinite : x.isFinite = true) (hfield : x.field ≠ 0) :
    x.unpack = .finite x.sign x.mantissa (x.field.toNat - 1075) x.mantissa_pos := by
  have hfields : x.unpack = if x.field = -1 then _ else if x.field = 0 then _ else
      .finite x.sign x.mantissa (x.field.toNat - 1075) x.mantissa_pos := rfl
  rw [hfields, if_neg (isFinite_iff.1 hfinite), if_neg hfield]

theorem nonzero_unpack (hfinite : x.isFinite = true) (h : x.magnitude ≠ 0) :
    Rounding.Nonzero x.unpack := by
  by_cases hfield : x.field = 0
  · have hstored : x.stored ≠ 0 := fun hstored => h (magnitude_eq_zero_iff.2 ⟨hfield, hstored⟩)
    have hpos : 0 < x.stored.toNat :=
      Nat.pos_of_ne_zero fun hzero => hstored (BitVec.eq_of_toNat_eq hzero)
    have hfields : x.unpack = if x.field = -1 then _ else if x.field = 0 then
        if h : x.stored = 0 then _ else
          .finite x.sign x.stored.toNat (x.field.toNat - 1075 + 1) hpos else _ := rfl
    rw [hfields, if_neg (isFinite_iff.1 hfinite), if_pos hfield, dif_neg hstored]
    exact .finite ⟨hpos, Nat.lt_trans x.stored.isLt (by decide), by omega⟩
  · have hshort : x.mantissa < 2 ^ 53 := by
      have hlt : x.stored.toNat < 2 ^ 52 := x.stored.isLt
      rw [mantissa_eq]
      omega
    have hpos : x.field.toNat ≠ 0 := fun hzero => hfield (BitVec.eq_of_toNat_eq hzero)
    rw [unpack_of_field_ne_zero hfinite hfield]
    exact .finite ⟨x.mantissa_pos, hshort, by omega⟩

theorem unpack_ne_notANumber (hfinite : x.isFinite = true) : x.unpack ≠ .notANumber := by
  intro hnan
  by_cases h : x.magnitude = 0
  · rw [unpack_of_magnitude_eq_zero h] at hnan
    cases hnan
  · have hnonzero := nonzero_unpack hfinite h
    rw [hnan] at hnonzero
    cases hnonzero

/-! ### Differences -/

/-- A difference of finite numbers is computed on what is unpacked. -/
theorem bits_sub (hx : x.isFinite = true) (hy : y.isFinite = true) : (x - y).bits.toBitVec =
    UnpackedFloat.pack Format.binary64 (UnpackedFloat.sub Format.binary64 x.unpack y.unpack) := by
  have hmachine : x - y = ofFloat (x.toFloat - y.toFloat) := by
    show lift₂ (· - ·) x y = _
    simp [lift₂, isNaN_of_isFinite hx, isNaN_of_isFinite hy]
  have hunpacked : ∀ {z : Double}, z.isFinite = true →
      UnpackedFloat.unpack Format.binary64 (UnpackedFloat.pack Format.binary64 z.unpack) =
        z.unpack := by
    intro z hz
    exact congrArg (UnpackedFloat.unpack Format.binary64)
      (Rounding.pack_unpack (unpack_ne_notANumber hz))
  rw [hmachine]
  show UnpackedFloat.pack Format.binary64 (UnpackedFloat.sub Format.binary64
    (UnpackedFloat.unpack Format.binary64 (UnpackedFloat.pack Format.binary64 x.unpack))
    (UnpackedFloat.unpack Format.binary64 (UnpackedFloat.pack Format.binary64 y.unpack))) = _
  rw [hunpacked hx, hunpacked hy]

theorem magnitude_sub_ne_zero (hx : x.isFinite = true) (hy : y.isFinite = true)
    (h : Rounding.Nonzero (UnpackedFloat.sub Format.binary64 x.unpack y.unpack)) :
    (x - y).magnitude ≠ 0 := by
  rw [Ne, magnitude_eq_zero_iff, field, stored, bits_sub hx hy]
  exact Rounding.pack_nonzero h

theorem magnitude_sub_eq_zero (hx : x.isFinite = true) (hy : y.isFinite = true) {s : Sign}
    (h : UnpackedFloat.sub Format.binary64 x.unpack y.unpack = .zero s) :
    (x - y).magnitude = 0 := by
  rw [magnitude_eq_zero_iff, field, stored, bits_sub hx hy, h]
  exact ⟨unpackExponent_packComponents, unpackMantissa_packComponents⟩

/-- A number is equal to zero if it has no magnitude, whatever its sign. -/
theorem eq_zero_iff : x.eq 0 = true ↔ x.magnitude = 0 := by
  have hzero : (0 : Double).isNaN = false ∧ (0 : Double).rank = 0 := by decide +kernel
  have hrank : x.rank = 0 ↔ x.magnitude = 0 := by
    unfold rank
    split <;> omega
  simp only [eq, related, hzero, Bool.not_false, Bool.and_true, Bool.and_eq_true,
    Bool.not_eq_true', beq_iff_eq, hrank, and_iff_right_iff_imp]
  intro hmagnitude
  rw [isNaN, hmagnitude]
  rfl

end Double

end Formula
