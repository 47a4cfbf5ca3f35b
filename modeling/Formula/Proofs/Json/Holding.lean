import Formula.Proofs.Double.Bits
import Formula.Proofs.Json.Reading
/-!
Documents that are held as data. Such a document may have so many arrays and objects open at once,
and its numbers have to lie in the range of doubles; integers of 64 bits always do.
-/

namespace Formula

/-! ### The range of doubles -/

theorem Binary.roundDiv_le (num den : Nat) : roundDiv num den ≤ num / den + 1 := by
  dsimp only [roundDiv]
  split
  · omega
  · split <;> omega

/-- The places of a number that is scaled by a power of two. -/
theorem Binary.log2_scaled_lt {m k : Nat} (hm : m < Nat.pow 2 k) (s : Nat) (hk : 0 < k) :
    (m * Nat.pow 2 s).log2 < k + s := by
  rcases Nat.eq_zero_or_pos m with rfl | hpos
  · rw [Nat.zero_mul, Nat.log2_zero]
    omega
  · have hscale : 0 < Nat.pow 2 s := Nat.two_pow_pos s
    have hscaled : m * Nat.pow 2 s < Nat.pow 2 (k + s) :=
      calc m * Nat.pow 2 s < Nat.pow 2 k * Nat.pow 2 s := Nat.mul_lt_mul_of_pos_right hm hscale
        _ = Nat.pow 2 (k + s) := (Nat.pow_add 2 k s).symm
    exact (Nat.log2_lt (Nat.ne_of_gt (Nat.mul_pos hpos hscale))).2 hscaled

/-- No more than 53 places are left of a number when those beyond are cut off. -/
theorem Binary.mantissa_lt (n : Nat) :
    n / Nat.pow 2 (n.log2 - Double.storedBits) < Nat.pow 2 53 := by
  have hlog : n < Nat.pow 2 (n.log2 + 1) := Nat.lt_log2_self
  have hplaces : n.log2 + 1 ≤ n.log2 - Double.storedBits + 53 := by
    simp only [Double.storedBits]
    omega
  apply Nat.div_lt_of_lt_mul
  calc n < Nat.pow 2 (n.log2 + 1) := hlog
    _ ≤ Nat.pow 2 (n.log2 - Double.storedBits + 53) := Nat.pow_le_pow_right (by decide) hplaces
    _ = Nat.pow 2 (n.log2 - Double.storedBits) * Nat.pow 2 53 := Nat.pow_add 2 _ 53

/-- A number of few enough places is rounded to a magnitude far below the infinite one. -/
theorem Binary.rounded_lt {units : Nat} (hlog : units.log2 < 64 + 1074) :
    (units.log2 - Double.storedBits) * Double.normalBit +
      roundDiv units (Nat.pow 2 (units.log2 - Double.storedBits)) < Double.infinityBits := by
  have hmantissa := mantissa_lt units
  have hround := roundDiv_le units (Nat.pow 2 (units.log2 - Double.storedBits))
  have hshift : (units.log2 - Double.storedBits) * Double.normalBit ≤ 1086 * Double.normalBit :=
    Nat.mul_le_mul_right _ (by simp only [Double.storedBits]; omega)
  have hrange : 1086 * Double.normalBit + (Nat.pow 2 53 + 1) < Double.infinityBits := by decide
  omega

/-- A whole number of 64 bits at most lies in the range of doubles. -/
theorem Binary.nearest_lt {m : Nat} (hm : m ≤ Json.greatestMantissa) :
    nearest m 1 < Double.infinityBits := by
  have hfew : m < Nat.pow 2 64 := Nat.lt_of_le_of_lt hm (by decide)
  unfold nearest
  -- the power of two of the least positive double is not to be computed
  generalize hs : 1074 = s
  have hlog := log2_scaled_lt hfew s (by decide)
  simp only [Nat.div_one, Nat.one_mul]
  exact Nat.lt_of_le_of_lt (Nat.min_le_left _ _) (rounded_lt (by omega))

namespace Json

theorem double?_integer {n : Int} (hn : n.natAbs ≤ greatestMantissa) :
    (double? (integer n)).isSome := by
  have hfinite : (Decimal.toDouble (n < 0) ⟨n.natAbs, 0⟩).isFinite := by
    apply Double.isFinite_ofMagnitude
    by_cases hzero : n.natAbs = 0
    · simp only [if_pos hzero]
      decide
    · have hbound : ¬Decimal.exponentBound < (0 : Int).toNat := by decide
      simp only [if_neg hzero, Int.le_refl, if_true, if_neg hbound]
      exact Binary.nearest_lt (by simpa using hn)
  simp [double?, hfinite]

/-! ### Arrays and objects open at once -/

mutual

/-- The most arrays and objects that are open at once in the text of a document. -/
def nesting : Json → Nat
  | array items => nestingAll items + 1
  | object fields => nestingFields fields + 1
  | _ => 0

/-- The most that are open at once in an item. -/
def nestingAll : List Json → Nat
  | [] => 0
  | j :: js => max (nesting j) (nestingAll js)

/-- The most that are open at once in a field. -/
def nestingFields : List (Option String × Json) → Nat
  | [] => 0
  | (_, j) :: fs => max (nesting j) (nestingFields fs)

end

theorem nestingAll_le {js : List Json} {b : Nat} : nestingAll js ≤ b ↔ ∀ j ∈ js, j.nesting ≤ b := by
  induction js with
  | nil => simp [nestingAll]
  | cons j js ih => simp only [nestingAll, Nat.max_le, List.forall_mem_cons, ih]

theorem nestingFields_le {fs : List (Option String × Json)} {b : Nat} :
    nestingFields fs ≤ b ↔ ∀ f ∈ fs, f.2.nesting ≤ b := by
  induction fs with
  | nil => simp [nestingFields]
  | cons f fs ih =>
    obtain ⟨name, j⟩ := f
    simp only [nestingFields, Nat.max_le, List.forall_mem_cons, ih]

theorem rereadAll_eq_map (js : List Json) : rereadAll js = js.map reread := by
  induction js with
  | nil => rfl
  | cons j js ih => simp [rereadAll, ih]

theorem rereadFields_eq_map (fs : List (Option String × Json)) :
    rereadFields fs = fs.map fun f => (f.1, f.2.reread) := by
  induction fs with
  | nil => rfl
  | cons f fs ih => simp [rereadFields, ih]

theorem areSound_iff {b : Nat} {js : List Json} : areSound b js ↔ ∀ j ∈ js, isSound b j := by
  induction js with
  | nil => simp [areSound]
  | cons j js ih => simp [areSound, ih]

theorem areFieldsSound_iff {b : Nat} {fs : List (Option String × Json)} :
    areFieldsSound b fs ↔ ∀ f ∈ fs, f.1.isSome ∧ isSound b f.2 := by
  induction fs with
  | nil => simp [areFieldsSound]
  | cons f fs ih =>
    obtain ⟨name, j⟩ := f
    simp [areFieldsSound, ih, and_assoc]

/-- What is held has no more arrays and objects open at once than may be. -/
theorem nesting_le_of_isSound {j : Json} (h : Writable j) :
    ∀ {b : Nat}, isSound b j.reread → j.nesting ≤ b := by
  induction h with
  | null | bool | integer | decimal | string => exact fun _ => Nat.zero_le _
  | array _ ih =>
    intro b hsound
    simp only [reread, isSound, Bool.and_eq_true, decide_eq_true_eq, areSound_iff, rereadAll_eq_map,
      List.forall_mem_map] at hsound
    have hitems := nestingAll_le.2 fun j hj => ih j hj (hsound.2 j hj)
    simp only [nesting]
    omega
  | object _ ih =>
    intro b hsound
    simp only [reread, isSound, Bool.and_eq_true, decide_eq_true_eq, areFieldsSound_iff,
      rereadFields_eq_map, List.forall_mem_map] at hsound
    have hfields := nestingFields_le.2 fun f hf => ih f hf (hsound.2 f hf).2
    simp only [nesting]
    omega

/-! ### Texts and objects as they are made -/

@[simp] theorem reread_ofString (s : String) : reread (ofString s) = ofString s := rfl

@[simp] theorem string?_ofString (s : String) : string? (ofString s) = some s := rfl

@[simp] theorem isSound_ofString (b : Nat) (s : String) : isSound b (ofString s) = true := rfl

theorem writable_ofString (s : String) : Writable (ofString s) :=
  .string (some s)

theorem writable_ofFields {fields : List (String × Json)} (h : ∀ f ∈ fields, Writable f.2) :
    Writable (ofFields fields) :=
  .object (List.forall_mem_map.2 h)

@[simp] theorem reread_ofFields (fields : List (String × Json)) :
    reread (ofFields fields) = ofFields (fields.map fun f => (f.1, f.2.reread)) := by
  simp [ofFields, reread, rereadFields_eq_map]

@[simp] theorem fields?_ofFields (fields : List (String × Json)) :
    fields? (ofFields fields) = some fields := by
  simp only [ofFields, fields?]
  induction fields with
  | nil => rfl
  | cons f fs ih => simp [ih]

theorem nesting_ofFields_le {fields : List (String × Json)} {b : Nat} :
    (ofFields fields).nesting ≤ b ↔ 0 < b ∧ ∀ f ∈ fields, f.2.nesting ≤ b - 1 := by
  have hfields : nestingFields (fields.map fun f => (some f.1, f.2)) ≤ b - 1 ↔
      ∀ f ∈ fields, f.2.nesting ≤ b - 1 := by
    rw [nestingFields_le, List.forall_mem_map]
  rw [← hfields]
  simp only [ofFields, nesting]
  omega

theorem nesting_array_le {items : List Json} {b : Nat} :
    (array items).nesting ≤ b ↔ 0 < b ∧ ∀ j ∈ items, j.nesting ≤ b - 1 := by
  rw [← nestingAll_le]
  simp only [nesting]
  omega

theorem isSound_ofFields {fields : List (String × Json)} {b : Nat} :
    isSound b (ofFields fields) ↔ 0 < b ∧ ∀ f ∈ fields, isSound (b - 1) f.2 := by
  simp only [ofFields, isSound, Bool.and_eq_true, decide_eq_true_eq, areFieldsSound_iff,
    List.forall_mem_map, Option.isSome_some, true_and]

theorem isSound_array {items : List Json} {b : Nat} :
    isSound b (array items) ↔ 0 < b ∧ ∀ j ∈ items, isSound (b - 1) j := by
  simp [isSound, areSound_iff]

end Json

end Formula
