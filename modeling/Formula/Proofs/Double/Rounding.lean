import Formula.Double
import Mathlib
/-!
Sums, differences and products of integers, as the machine computes them, are integers again as long
as they are finite: rounding drops digits behind the point only where there are none.
-/

namespace Formula.Rounding

open Float.Model Float.Model.UnpackedFloat

/-- The number `m · 2 ^ e` is an integer. -/
def Integral (m : Nat) (e : Int) : Prop :=
  2 ^ (-e).toNat ∣ m

/-- An unpacked double is an integer with a full mantissa, or zero, an infinity or no number. -/
inductive Whole : UnpackedFloat → Prop
  | notANumber : Whole .notANumber
  | infinity {s} : Whole (.infinity s)
  | zero {s} : Whole (.zero s)
  | finite {s m e pos} (full : m.log2 = 52) (integral : Integral m e) : Whole (.finite s m e pos)

variable {m n : Nat} {e e' : Int} {s : Sign} {f g : UnpackedFloat}

theorem whole_finite_iff {pos : 0 < m} :
    Whole (.finite s m e pos) ↔ m.log2 = 52 ∧ Integral m e := by
  constructor
  · rintro ⟨⟩
    exact ⟨‹_›, ‹_›⟩
  · exact fun h => .finite h.1 h.2

theorem integral_of_nonneg (h : 0 ≤ e) : Integral m e := by
  have hzero : (-e).toNat = 0 := by omega
  rw [Integral, hzero, Nat.pow_zero]
  exact Nat.one_dvd m

theorem Integral.shiftLeft (h : Integral m e) (k : Nat) : Integral (m <<< k) (e - k) := by
  rw [Integral, Nat.shiftLeft_eq]
  have hle : (-(e - k)).toNat ≤ (-e).toNat + k := by omega
  refine Nat.dvd_trans (Nat.pow_dvd_pow 2 hle) ?_
  rw [Nat.pow_add]
  exact Nat.mul_dvd_mul_right h _

theorem integral_shiftLeft (m k : Nat) : Integral (m <<< k) (-k) := by
  have hshift := (integral_of_nonneg (Int.le_refl 0)).shiftLeft (m := m) k
  rwa [Int.zero_sub] at hshift

theorem Integral.mul (hm : Integral m e) (hn : Integral n e') : Integral (m * n) (e + e') := by
  have hle : (-(e + e')).toNat ≤ (-e).toNat + (-e').toNat := by omega
  refine Nat.dvd_trans (Nat.pow_dvd_pow 2 hle) ?_
  rw [Nat.pow_add]
  exact Nat.mul_dvd_mul hm hn

/-- Digits that are dropped stand before the point, or are all zero. -/
theorem Integral.drop (h : Integral m e) (k : Nat) : 0 ≤ e + k ∨ 2 ^ k ∣ m := by
  by_cases hk : 0 ≤ e + k
  · exact .inl hk
  · have hle : k ≤ (-e).toNat := by omega
    exact .inr (Nat.dvd_trans (Nat.pow_dvd_pow 2 hle) h)

theorem Integral.shiftRight (h : Integral m e) (k : Nat) : Integral (m / 2 ^ k) (e + k) := by
  by_cases hk : 0 ≤ e + k
  · exact integral_of_nonneg hk
  · have heq : (-e).toNat = k + (-(e + k)).toNat := by omega
    rw [Integral, heq, Nat.pow_add] at h
    exact Nat.dvd_div_of_mul_dvd h

/-- An integer that is not zero has its first digit before the point. -/
theorem Integral.le_log2 (h : Integral m e) (hm : 0 < m) : -e ≤ m.log2 := by
  have hle : (-e).toNat ≤ m.log2 := (Nat.le_log2 (Nat.ne_of_gt hm)).2 (Nat.le_of_dvd hm h)
  omega

/-! ### Lengths of mantissas -/

theorem log2_shiftLeft (hm : 0 < m) (k : Nat) : (m <<< k).log2 = m.log2 + k := by
  have hne : m ≠ 0 := Nat.ne_of_gt hm
  have hpos : 0 < m * 2 ^ k := Nat.mul_pos hm (Nat.two_pow_pos k)
  rw [Nat.shiftLeft_eq, Nat.log2_eq_iff (Nat.ne_of_gt hpos)]
  constructor
  · rw [Nat.pow_add]
    exact Nat.mul_le_mul_right _ (Nat.log2_self_le hne)
  · rw [Nat.add_right_comm, Nat.pow_add]
    exact Nat.mul_lt_mul_of_pos_right Nat.lt_log2_self (Nat.two_pow_pos k)

/-- What is left of a mantissa behind its first 53 digits is dropped. -/
theorem log2_div (h : 52 ≤ m.log2) : (m / 2 ^ (m.log2 - 52)).log2 = 52 := by
  have hne : m ≠ 0 := by
    rintro rfl
    simp at h
  have hsplit : 52 + (m.log2 - 52) = m.log2 := by omega
  have hlow : 2 ^ 52 * 2 ^ (m.log2 - 52) ≤ m := by
    rw [← Nat.pow_add, hsplit]
    exact Nat.log2_self_le hne
  have hhigh : m < 2 ^ (m.log2 - 52) * 2 ^ (52 + 1) := by
    have heq : m.log2 - 52 + (52 + 1) = m.log2 + 1 := by omega
    rw [← Nat.pow_add, heq]
    exact Nat.lt_log2_self
  have hle : 2 ^ 52 ≤ m / 2 ^ (m.log2 - 52) :=
    (Nat.le_div_iff_mul_le (Nat.two_pow_pos _)).2 hlow
  rw [Nat.log2_eq_iff (by omega)]
  exact ⟨hle, Nat.div_lt_of_lt_mul hhigh⟩

/-! ### Rounding -/

theorem mantissa_shiftRight (em : ExtendedMantissa) (k : Nat) :
    (em >>> k).mantissa = em.mantissa / 2 ^ k := by
  show (k.repeat ExtendedMantissa.shiftRightOne em).mantissa = _
  induction k with
  | zero => simp [Nat.repeat]
  | succ k ih => rw [Nat.repeat, ExtendedMantissa.shiftRightOne, ih, Nat.div_div_eq_div_mul,
      Nat.pow_succ]

theorem mantissa_dropped (m k : Nat) :
    (ExtendedMantissa.ofMantissaAndAccuracy m .exact >>> k).mantissa = m / 2 ^ k :=
  mantissa_shiftRight _ k

/-- Zeros are dropped without a trace. -/
theorem shiftRight_exact {k : Nat} (h : 2 ^ k ∣ m) :
    ExtendedMantissa.ofMantissaAndAccuracy m .exact >>> k = ⟨m / 2 ^ k, false, false⟩ := by
  show k.repeat ExtendedMantissa.shiftRightOne ⟨m, false, false⟩ = _
  induction k with
  | zero => simp [Nat.repeat]
  | succ k ih =>
    have hk : 2 ^ k ∣ m := Nat.dvd_trans (Nat.pow_dvd_pow 2 (Nat.le_succ k)) h
    have heven : m / 2 ^ k % 2 = 0 := by
      rw [Nat.pow_succ] at h
      exact Nat.mod_eq_zero_of_dvd (Nat.dvd_div_of_mul_dvd h)
    simp [Nat.repeat, ExtendedMantissa.shiftRightOne, ih hk, heven, Nat.div_div_eq_div_mul,
      Nat.pow_succ]

theorem mantissa_le_roundedMantissa (em : ExtendedMantissa) :
    em.mantissa ≤ em.roundedMantissa := by
  obtain ⟨m, roundBit, stickyBit⟩ := em
  cases roundBit <;> cases stickyBit <;>
    simp [ExtendedMantissa.roundedMantissa, ExtendedMantissa.accuracy,
      Accuracy.roundToNearestEven]

/-- A number with at least 53 digits that is no fraction is brought to 53 digits. -/
theorem shiftToTargetExponent_eq (hm : 52 ≤ m.log2) (he : -e ≤ m.log2) (a : Accuracy) :
    shiftToTargetExponent Format.binary64 m e a =
      (ExtendedMantissa.ofMantissaAndAccuracy m a >>> (m.log2 - 52), e + (m.log2 - 52 : Nat)) := by
  have htarget : Format.binary64.targetExponent (totalExponent m e) = m.log2 - 52 + e := by
    simp only [Format.targetExponent, totalExponent, Format.mantissaBits, Format.minExponent]
    omega
  have hamount : (m.log2 - 52 + e - e).toNat = m.log2 - 52 := by omega
  simp only [shiftToTargetExponent, shiftToExponent, htarget, hamount]

theorem pos_of_log2 (h : 52 ≤ m.log2) : 0 < m := by
  rcases Nat.eq_zero_or_pos m with rfl | hm
  · simp at h
  · exact hm

/-- What an integer is rounded to first is an integer, and may have a digit more. -/
theorem integral_roundedMantissa (hm : 52 ≤ m.log2) (h : Integral m e) {r : Nat}
    (hr : r = (ExtendedMantissa.ofMantissaAndAccuracy m .exact >>>
      (m.log2 - 52)).roundedMantissa) :
    52 ≤ r.log2 ∧ Integral r (e + (m.log2 - 52 : Nat)) := by
  constructor
  · have hlow : 2 ^ 52 ≤ m / 2 ^ (m.log2 - 52) := by
      have hlog := Nat.le_of_eq (log2_div hm).symm
      exact (Nat.le_log2 (Nat.ne_of_gt (pos_of_log2 hlog))).1 hlog
    have hle := mantissa_le_roundedMantissa
      (ExtendedMantissa.ofMantissaAndAccuracy m .exact >>> (m.log2 - 52))
    rw [mantissa_dropped, ← hr] at hle
    have hlow' : 2 ^ 52 ≤ r := Nat.le_trans hlow hle
    exact (Nat.le_log2 (by omega)).2 hlow'
  · rcases h.drop (m.log2 - 52) with hdrop | hdrop
    · exact integral_of_nonneg hdrop
    · rw [hr, shiftRight_exact hdrop]
      exact h.shiftRight _

/-- An integer with at least 53 digits is rounded to an integer. -/
theorem whole_roundWithAccuracy (hm : 52 ≤ m.log2) (h : Integral m e) :
    Whole (roundWithAccuracy Format.binary64 s m e .exact) := by
  generalize hr : (ExtendedMantissa.ofMantissaAndAccuracy m .exact >>>
    (m.log2 - 52)).roundedMantissa = r
  obtain ⟨hlog, hintegral⟩ := integral_roundedMantissa hm h hr.symm
  have hfirst := shiftToTargetExponent_eq hm (h.le_log2 (pos_of_log2 hm)) .exact
  have hsecond := shiftToTargetExponent_eq hlog (hintegral.le_log2 (pos_of_log2 hlog)) .exact
  have hfinal := log2_div hlog
  have hne : r / 2 ^ (r.log2 - 52) ≠ 0 :=
    Nat.ne_of_gt (pos_of_log2 (Nat.le_of_eq hfinal.symm))
  simp only [roundWithAccuracy, hfirst, hr, hsecond, mantissa_dropped, dif_neg hne]
  exact .finite hfinal (hintegral.shiftRight _)

/-- An integer is rounded to an integer. -/
theorem whole_round (hm : 0 < m) (h : Integral m e) :
    Whole (UnpackedFloat.round Format.binary64 s m e) := by
  have he := h.le_log2 hm
  have hamount : (e - Format.binary64.targetExponent (totalExponent m e)).toNat =
      52 - m.log2 := by
    simp only [Format.targetExponent, totalExponent, Format.mantissaBits, Format.minExponent]
    omega
  simp only [UnpackedFloat.round, decreaseExponent, hamount]
  refine whole_roundWithAccuracy ?_ (h.shiftLeft _)
  rw [log2_shiftLeft hm]
  omega

theorem whole_normalize {n : Int} (h : Integral n.natAbs e) :
    Whole (UnpackedFloat.normalize Format.binary64 n e s) := by
  unfold UnpackedFloat.normalize
  split
  case h_1 hlt =>
    have hn : n < 0 := Int.compare_eq_lt.1 hlt
    have habs : (-n).toNat = n.natAbs := by omega
    exact whole_round (by omega) (habs ▸ h)
  case h_2 => exact .zero
  case h_3 hgt =>
    have hn : 0 < n := Int.compare_eq_gt.1 hgt
    have habs : n.toNat = n.natAbs := by omega
    exact whole_round (by omega) (habs ▸ h)

/-! ### Operations -/

/-- Both operands of a sum are brought to the lesser exponent. -/
theorem Integral.decreaseExponent {least : Int} (h : Integral m e) (he : least ≤ e)
    (hn : UnpackedFloat.decreaseExponent m e least = (n, e')) : Integral n least := by
  obtain ⟨rfl, -⟩ := Prod.mk.inj hn
  have heq : e - ((e - least).toNat : Int) = least := by omega
  have hshift := h.shiftLeft (e - least).toNat
  rwa [heq] at hshift

/-- Zeros behind the digits of a mantissa are those of the number with a sign. -/
theorem Integral.apply (h : Integral m e) (s : Sign) :
    ((2 ^ (-e).toNat : Nat) : Int) ∣ s.apply m := by
  cases s with
  | negative => exact Int.dvd_neg.2 (Int.ofNat_dvd.2 h)
  | positive => exact Int.ofNat_dvd.2 h

theorem whole_neg (hf : Whole f) : Whole f.neg := by
  cases hf with
  | finite full integral => exact .finite full integral
  | _ => constructor

theorem whole_add (hf : Whole f) (hg : Whole g) :
    Whole (UnpackedFloat.add Format.binary64 f g) := by
  fun_cases UnpackedFloat.add with
  | case9 => exact hg
  | case10 => exact hf
  | case11 s₁ m₁ e₁ _ s₂ m₂ e₂ _ least n₁ _ hn₁ n₂ _ hn₂ =>
    obtain ⟨-, hm₁⟩ := whole_finite_iff.1 hf
    obtain ⟨-, hm₂⟩ := whole_finite_iff.1 hg
    have h₁ := hm₁.decreaseExponent (Int.min_le_left e₁ e₂) hn₁
    have h₂ := hm₂.decreaseExponent (Int.min_le_right e₁ e₂) hn₂
    exact whole_normalize (Int.ofNat_dvd_left.1 (Int.dvd_add (h₁.apply s₁) (h₂.apply s₂)))
  | _ => constructor

theorem whole_sub (hf : Whole f) (hg : Whole g) :
    Whole (UnpackedFloat.sub Format.binary64 f g) := by
  fun_cases UnpackedFloat.sub with
  | case9 => exact whole_neg hg
  | case10 => exact hf
  | case11 s₁ m₁ e₁ _ s₂ m₂ e₂ _ least n₁ _ hn₁ n₂ _ hn₂ =>
    obtain ⟨-, hm₁⟩ := whole_finite_iff.1 hf
    obtain ⟨-, hm₂⟩ := whole_finite_iff.1 hg
    have h₁ := hm₁.decreaseExponent (Int.min_le_left e₁ e₂) hn₁
    have h₂ := hm₂.decreaseExponent (Int.min_le_right e₁ e₂) hn₂
    exact whole_normalize (Int.ofNat_dvd_left.1 (Int.dvd_sub (h₁.apply s₁) (h₂.apply s₂)))
  | _ => constructor

/-- A product is an integer if the exact product is one, and long enough. -/
theorem whole_mul_finite {s' : Sign} (hm : 0 < m) (hn : 0 < n) (hlong : 52 ≤ (m * n).log2)
    (h : Integral (m * n) (e + e')) :
    Whole (UnpackedFloat.mul Format.binary64 (.finite s m e hm) (.finite s' n e' hn)) :=
  whole_roundWithAccuracy hlong h

theorem whole_mul (hf : Whole f) (hg : Whole g) :
    Whole (UnpackedFloat.mul Format.binary64 f g) := by
  fun_cases UnpackedFloat.mul with
  | case11 s₁ m₁ e₁ pos₁ s₂ m₂ e₂ pos₂ =>
    obtain ⟨hlog, hm₁⟩ := whole_finite_iff.1 hf
    obtain ⟨-, hm₂⟩ := whole_finite_iff.1 hg
    have hle : 52 ≤ (m₁ * m₂).log2 := by
      rw [Nat.le_log2 (Nat.ne_of_gt (Nat.mul_pos pos₁ pos₂))]
      have hlow := (Nat.le_log2 (Nat.ne_of_gt pos₁)).1 (Nat.le_of_eq hlog.symm)
      exact Nat.le_trans hlow (Nat.le_mul_of_pos_right m₁ pos₂)
    exact whole_mul_finite pos₁ pos₂ hle (hm₁.mul hm₂)
  | _ => constructor

/-! ### Packing -/

theorem toNat_implicit (v : BitVec 52) : (1#1 ++ v).toNat = 2 ^ 52 + v.toNat := by
  rw [BitVec.toNat_append, ← Nat.shiftLeft_add_eq_or_of_lt v.isLt]
  rfl

theorem log2_stored {k : Nat} (h : k < 2 ^ 52) : (2 ^ 52 + k).log2 = 52 := by
  rw [Nat.log2_eq_iff (by omega)]
  omega

theorem log2_ne_of_lt (h : m < 2 ^ 52) : m.log2 ≠ 52 := by
  rcases Nat.eq_zero_or_pos m with rfl | hm
  · simp
  · exact Nat.ne_of_lt ((Nat.log2_lt (Nat.ne_of_gt hm)).2 h)

/-- The fields of a double are those of an integer: the mantissa is zero, or has only zeros behind
the point. -/
def WholeFields (x : BitVec 11) (v : BitVec 52) : Prop :=
  if x = 0 then v = 0 else Integral (2 ^ 52 + v.toNat) (x.toNat - 1075)

variable {x : BitVec 11} {v : BitVec 52}

theorem wholeFields_of_eq_zero (hx : x = 0) : WholeFields x v ↔ v = 0 := by
  rw [WholeFields, if_pos hx]

theorem wholeFields_of_ne_zero (hx : x ≠ 0) :
    WholeFields x v ↔ Integral (2 ^ 52 + v.toNat) (x.toNat - 1075) := by
  rw [WholeFields, if_neg hx]

/-- With the exponent of what is not finite, nothing is asked of the mantissa. -/
theorem wholeFields_of_special (hx : x = -1) : WholeFields x v := by
  subst hx
  rw [wholeFields_of_ne_zero (by decide)]
  exact integral_of_nonneg (by decide)

theorem whole_unpack_iff (b : BitVec Format.binary64.numBits) :
    Whole (UnpackedFloat.unpack Format.binary64 b) ↔
      WholeFields (unpackExponent b) (unpackMantissa b) := by
  fun_cases UnpackedFloat.unpack with
  | case1 v x _ _ hx _ => exact iff_of_true .infinity (wholeFields_of_special hx)
  | case2 v x hx _ => exact iff_of_true .notANumber (wholeFields_of_special hx)
  | case3 v x _ _ _ hx hv => exact iff_of_true .zero ((wholeFields_of_eq_zero hx).2 hv)
  | case4 v x _ _ _ _ hx hv =>
    refine iff_of_false (fun h => log2_ne_of_lt v.isLt (whole_finite_iff.1 h).1) ?_
    exact fun h => hv ((wholeFields_of_eq_zero hx).1 h)
  | case5 v x e _ _ _ hx =>
    have hlog : (1#1 ++ v).toNat.log2 = 52 := by
      rw [toNat_implicit]
      exact log2_stored v.isLt
    rw [whole_finite_iff, and_iff_right hlog, toNat_implicit]
    exact (wholeFields_of_ne_zero hx).symm

/-- An integer with a full mantissa is found again in the fields that it is packed into. -/
theorem wholeFields_of_normal {biased : Nat} (hm : m.log2 = 52) (h : Integral m e)
    (hbiased : (biased : Int) = e + 1075) (hle : biased < 2 ^ 11) :
    WholeFields (BitVec.ofNat 11 biased) (BitVec.ofNat 52 m) := by
  have hpos := pos_of_log2 (Nat.le_of_eq hm.symm)
  have he := h.le_log2 hpos
  obtain ⟨hlow, hhigh⟩ := (Nat.log2_eq_iff (Nat.ne_of_gt hpos)).1 hm
  have hfield : (BitVec.ofNat 11 biased).toNat = biased := Nat.mod_eq_of_lt hle
  have hstored : 2 ^ 52 + (BitVec.ofNat 52 m).toNat = m := by
    rw [BitVec.toNat_ofNat]
    omega
  have hne : BitVec.ofNat 11 biased ≠ 0 := by
    intro hzero
    have hzero' : biased = 0 := hfield.symm.trans (congrArg BitVec.toNat hzero)
    omega
  have hexponent : ((BitVec.ofNat 11 biased).toNat : Int) - 1075 = e := by omega
  rw [wholeFields_of_ne_zero hne, hstored, hexponent]
  exact h

theorem whole_unpack_pack (hf : Whole f) :
    Whole (UnpackedFloat.unpack Format.binary64 (UnpackedFloat.pack Format.binary64 f)) := by
  rw [whole_unpack_iff]
  fun_cases UnpackedFloat.pack with
  | case1 => exact wholeFields_of_special unpackExponent_packComponents
  | case2 s => exact wholeFields_of_special unpackExponent_packComponents
  | case3 s =>
    have hfield : unpackExponent (packedZero Format.binary64 s) = 0 :=
      unpackExponent_packComponents
    exact (wholeFields_of_eq_zero hfield).2 unpackMantissa_packComponents
  | case4 s m e _ _ _ => exact wholeFields_of_special unpackExponent_packComponents
  | case5 s m e pos _ biased hbiased _ =>
    obtain ⟨hlog, hm⟩ := whole_finite_iff.1 hf
    have he := hm.le_log2 pos
    have hvalue : biased = (e + 1023 + 52).toNat := rfl
    have hfits : ¬2 ^ 11 ≤ biased + 1 := hbiased
    rw [unpackExponent_packComponents, unpackMantissa_packComponents]
    exact wholeFields_of_normal hlog hm (by omega) (by omega)
  | case6 s m e pos _ _ _ hlog => exact absurd (congrArg (· + 1) (whole_finite_iff.1 hf).1) hlog

end Formula.Rounding
