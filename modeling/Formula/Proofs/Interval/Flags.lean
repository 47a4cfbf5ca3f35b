import Formula.Interval.Arithmetic
import Mathlib.Tactic.SplitIfs
/-!
The flags of intervals. Whatever the ends are, an operation gives no flag that one of its operands
lacks, and what is defined nowhere stays so.
-/

namespace Formula

namespace Info

/-! ### Flags and their order -/

/-- All flags of `i` are among those of `j`. -/
def Within (i j : UInt8) : Prop :=
  i &&& j = i

/-- Flags are well-formed: what has any is defined somewhere. -/
def WellFormed (i : UInt8) : Prop :=
  i = 0 ∨ has i somewhere = true

instance (i j : UInt8) : Decidable (Within i j) :=
  inferInstanceAs (Decidable (_ = _))

instance (i : UInt8) : Decidable (WellFormed i) :=
  inferInstanceAs (Decidable (_ ∨ _))

variable {i j k : UInt8}

theorem Within.refl (i : UInt8) : Within i i :=
  UInt8.and_self

theorem Within.trans (hij : Within i j) (hjk : Within j k) : Within i k := by
  unfold Within at *
  rw [← hij, UInt8.and_assoc, hjk]

theorem zero_within (i : UInt8) : Within 0 i :=
  UInt8.zero_and

theorem eq_zero_of_within_zero (h : Within i 0) : i = 0 :=
  h.symm.trans UInt8.and_zero

theorem and_within_left (i j : UInt8) : Within (i &&& j) i := by
  unfold Within
  rw [UInt8.and_comm, ← UInt8.and_assoc, UInt8.and_self]

theorem and_within_right (i j : UInt8) : Within (i &&& j) j := by
  rw [UInt8.and_comm]
  exact and_within_left j i

/-- The flags that two have in common are the most within both. -/
theorem Within.and (hj : Within i j) (hk : Within i k) : Within i (j &&& k) := by
  unfold Within at *
  rw [← UInt8.and_assoc, hj, hk]

theorem has_somewhere_iff : has i somewhere = true ↔ Within somewhere i := by
  have hbit : (i &&& 1).toNat = i.toNat % 2 := by
    rw [UInt8.toNat_and]
    exact Nat.and_one_is_mod _
  have hzero : i &&& 1 = 0 ↔ i.toNat % 2 = 0 := by
    rw [← hbit, ← UInt8.toNat_inj]
    rfl
  have hone : i &&& 1 = 1 ↔ i.toNat % 2 = 1 := by
    rw [← hbit, ← UInt8.toNat_inj]
    rfl
  unfold has Within somewhere
  rw [bne_iff_ne, ne_eq, UInt8.and_comm 1 i, hzero, hone]
  omega

theorem not_somewhere_within_zero : ¬ Within somewhere 0 := by decide

theorem WellFormed.somewhere_within (h : WellFormed i) (hi : i ≠ 0) : Within somewhere i :=
  has_somewhere_iff.1 (h.resolve_left hi)

theorem Within.wellFormed (h : Within somewhere i) : WellFormed i :=
  .inr (has_somewhere_iff.2 h)

theorem wellFormed_zero : WellFormed 0 :=
  .inl rfl

/-! ### Flags of a result -/

/-- The flags of a result are honest about those of the operands: they are well-formed and within
those of every operand, and an operand without flags makes the result undefined. -/
structure Honest (operands : List UInt8) (info : UInt8) (isUndefined : Prop) : Prop where
  wellFormed : WellFormed info
  within : ∀ i ∈ operands, Within info i
  undefined : 0 ∈ operands → isUndefined

variable {operands operands' : List UInt8} {info : UInt8} {P Q : Prop}

theorem honest_zero (hP : P) : Honest operands 0 P :=
  ⟨wellFormed_zero, fun i _ => zero_within i, fun _ => hP⟩

/-- Where all operands are defined somewhere, nothing has to be undefined. -/
theorem honest_of_somewhere (hoperands : ∀ i ∈ operands, Within somewhere i)
    (wellFormed : WellFormed info) (within : ∀ i ∈ operands, Within info i) :
    Honest operands info P := by
  refine ⟨wellFormed, within, fun hzero => ?_⟩
  exact absurd (hoperands 0 hzero) not_somewhere_within_zero

/-- Honesty reaches back to what the operands are honest about. -/
theorem Honest.mono (h : Honest operands info P)
    (hoperands : ∀ j ∈ operands', ∃ i ∈ operands, Within i j) (hPQ : P → Q) :
    Honest operands' info Q := by
  refine ⟨h.wellFormed, fun j hj => ?_, fun hzero => ?_⟩
  · obtain ⟨i, hi, hij⟩ := hoperands j hj
    exact (h.within i hi).trans hij
  · obtain ⟨i, hi, hij⟩ := hoperands 0 hzero
    rw [eq_zero_of_within_zero hij] at hi
    exact hPQ (h.undefined hi)

end Info

namespace Interval

open Info Endpoint

variable {α : Type}

section Endpoint

variable {a b : Interval α} {info : UInt8} {P : Prop}

theorem ne_zero_of_somewhere (hi : Within somewhere info) : info ≠ 0 := by
  rintro rfl
  exact not_somewhere_within_zero hi

theorem isDefined_eq_true : a.isDefined = true ↔ a.info ≠ 0 := by
  simp [isDefined]

theorem isDefined_eq_false : a.isDefined = false ↔ a.info = 0 := by
  simp [isDefined]

/-- A result of one operand is honest, if it is undefined where the operand is and has flags of the
operand otherwise. -/
theorem honest_of_operand (wellFormed : WellFormed a.info)
    (hundefined : a.isDefined = false → info = 0 ∧ P)
    (hdefined : a.isDefined = true → Within somewhere a.info →
      WellFormed info ∧ Within info a.info) : Honest [a.info] info P := by
  cases h : a.isDefined with
  | false =>
    obtain ⟨rfl, hP⟩ := hundefined h
    exact honest_zero hP
  | true =>
    have hsomewhere := wellFormed.somewhere_within (isDefined_eq_true.1 h)
    obtain ⟨hinfo, hwithin⟩ := hdefined h hsomewhere
    exact honest_of_somewhere (by simpa using hsomewhere) hinfo (by simpa using hwithin)

theorem common_eq_some {shared : UInt8} :
    common a b = some shared ↔ shared = a.info &&& b.info ∧ Within somewhere shared := by
  unfold common
  simp only [has_somewhere_iff]
  by_cases h : Within somewhere (a.info &&& b.info)
  · rw [if_pos h, Option.some.injEq]
    constructor
    · rintro rfl
      exact ⟨rfl, h⟩
    · rintro ⟨rfl, -⟩
      rfl
  · rw [if_neg h]
    constructor
    · rintro ⟨⟩
    · rintro ⟨rfl, hsomewhere⟩
      exact absurd hsomewhere h

/-- Operands that have flags in common are both defined. -/
theorem isDefined_of_common {shared : UInt8} (h : common a b = some shared) :
    a.isDefined = true ∧ b.isDefined = true := by
  obtain ⟨rfl, hsomewhere⟩ := common_eq_some.1 h
  rw [isDefined_eq_true, isDefined_eq_true]
  exact ⟨ne_zero_of_somewhere (hsomewhere.trans (and_within_left _ _)),
    ne_zero_of_somewhere (hsomewhere.trans (and_within_right _ _))⟩

/-- A result of two operands is honest, if it is undefined where they have nothing in common, and
otherwise has flags that they share. -/
theorem honest_of_common (hnone : common a b = none → info = 0 ∧ P)
    (hsome : ∀ shared, common a b = some shared → Within somewhere shared →
      Within shared a.info → WellFormed info ∧ Within info shared) :
    Honest [a.info, b.info] info P := by
  cases h : common a b with
  | none =>
    obtain ⟨rfl, hP⟩ := hnone h
    exact honest_zero hP
  | some shared =>
    obtain ⟨rfl, hsomewhere⟩ := common_eq_some.1 h
    have hleft := and_within_left a.info b.info
    have hright := and_within_right a.info b.info
    obtain ⟨hinfo, hwithin⟩ := hsome _ h hsomewhere hleft
    refine honest_of_somewhere ?_ hinfo ?_
    · simpa using ⟨hsomewhere.trans hleft, hsomewhere.trans hright⟩
    · simpa using ⟨hwithin.trans hleft, hwithin.trans hright⟩

/-! ### Operations of arithmetic -/

variable [Endpoint α]

/-- An operation that keeps the flags that its operands share is honest. -/
theorem honest_of_shared {r : Interval α} {f : UInt8 → Interval α}
    (hr : r = match common a b with
      | some shared => f shared
      | none => undefined) (hf : ∀ shared, (f shared).info = shared) :
    Honest [a.info, b.info] r.info (r = undefined) := by
  apply honest_of_common
  · intro h
    rw [hr, h]
    exact ⟨rfl, rfl⟩
  · intro shared h hsomewhere _
    rw [hr, h]
    simp only [hf]
    exact ⟨hsomewhere.wellFormed, .refl shared⟩

theorem honest_add : Honest [a.info, b.info] (add a b).info (add a b = undefined) :=
  honest_of_shared rfl fun _ => rfl

theorem honest_sub : Honest [a.info, b.info] (sub a b).info (sub a b = undefined) :=
  honest_of_shared rfl fun _ => rfl

theorem honest_mul : Honest [a.info, b.info] (mul a b).info (mul a b = undefined) :=
  honest_of_shared rfl fun _ => rfl

/-- A divisor around zero leaves one flag. -/
theorem honest_div : Honest [a.info, b.info] (div a b).info (div a b = undefined) := by
  apply honest_of_common
  · intro h
    rw [div, h]
    exact ⟨rfl, rfl⟩
  · intro shared h hsomewhere _
    simp only [div, h]
    split
    · exact ⟨hsomewhere.wellFormed, .refl shared⟩
    · exact ⟨(Within.refl somewhere).wellFormed, hsomewhere⟩

theorem honest_neg (wellFormed : WellFormed a.info) :
    Honest [a.info] (neg a).info (neg a = undefined) := by
  apply honest_of_operand wellFormed
  · intro h
    simp [neg, h, undefined]
  · intro h _
    simp only [neg, h, if_true]
    exact ⟨wellFormed, .refl a.info⟩

theorem honest_abs (wellFormed : WellFormed a.info) :
    Honest [a.info] (abs a).info (abs a = undefined) := by
  apply honest_of_operand wellFormed
  · intro h
    simp [abs, h, undefined]
  · intro h _
    have hinfo : (abs a).info = a.info := by
      simp only [abs, h, Bool.not_true, Bool.false_eq_true, if_false]
      split_ifs <;> rfl
    rw [hinfo]
    exact ⟨wellFormed, .refl a.info⟩

/-! ### Powers -/

theorem info_powNat (h : a.isDefined = true) (k : Nat) : (powNat a k).info = a.info := by
  simp only [powNat, h, Bool.not_true, Bool.false_eq_true, if_false]
  split_ifs <;> rfl

/-- The inverse of a power is a quotient of ranges with the same flags. -/
theorem honest_powInt (wellFormed : WellFormed a.info) (n : Int32) :
    Honest [a.info] (powInt a n).info (powInt a n = undefined) := by
  apply honest_of_operand wellFormed
  · intro h
    simp [powInt, h, undefined]
  · intro h _
    simp only [powInt, h, Bool.not_true, Bool.false_eq_true, if_false]
    split_ifs
    · have hdiv := honest_div (a := ⟨ofInt 1, ofInt 1, a.info⟩)
        (b := powNat a (min n.toInt.natAbs greatestExponent))
      exact ⟨hdiv.wellFormed, hdiv.within _ List.mem_cons_self⟩
    · rw [info_powNat h]
      exact ⟨wellFormed, .refl a.info⟩

theorem honest_pow : Honest [a.info, b.info] (pow a b).info (pow a b = undefined) := by
  apply honest_of_common
  · intro h
    rw [pow, h]
    exact ⟨rfl, rfl⟩
  · intro shared h hsomewhere hleft
    have hleast : WellFormed somewhere ∧ Within somewhere shared :=
      ⟨(Within.refl somewhere).wellFormed, hsomewhere⟩
    simp only [pow, h]
    split
    · exact hleast
    · rename_i n _
      split
      · exact hleast
      · have hpower := honest_powInt (hsomewhere.trans hleft).wellFormed (Int32.ofInt n)
        split
        · rename_i hdefined
          have hinfo := hpower.wellFormed.somewhere_within (isDefined_eq_true.1 hdefined)
          exact ⟨(hinfo.and hsomewhere).wellFormed, and_within_right _ _⟩
        · rename_i hdefined
          have hinfo := isDefined_eq_false.1 (Bool.eq_false_iff.2 hdefined)
          rw [hinfo]
          exact ⟨wellFormed_zero, zero_within shared⟩

/-- A power with a negative exponent loses continuity where it has two values. -/
theorem honest_intPow : Honest [a.info, b.info] (intPow a b).info (intPow a b = undefined) := by
  apply honest_of_common
  · intro h
    rw [intPow, h]
    exact ⟨rfl, rfl⟩
  · intro shared h hsomewhere hleft
    simp only [intPow, h]
    split
    · exact ⟨(Within.refl somewhere).wellFormed, hsomewhere⟩
    · split_ifs
      · have hpow := honest_pow (a := a) (b := b)
        obtain ⟨rfl, -⟩ := common_eq_some.1 h
        have hboth : Within (pow a b).info (a.info &&& b.info) :=
          (hpow.within _ (by simp)).and (hpow.within _ (by simp))
        exact ⟨hpow.wellFormed, hboth⟩
      · exact ⟨wellFormed_zero, zero_within shared⟩
      · exact ⟨hsomewhere.wellFormed, .refl shared⟩
      · have hkept : Within somewhere (~~~Info.continuous) := by decide
        exact ⟨(hsomewhere.and hkept).wellFormed, and_within_left _ _⟩

/-! ### Comparisons -/

theorem honest_less : Honest [a.info, b.info] (less a b).info (less a b = .undefined) := by
  apply honest_of_common
  · intro h
    rw [less, h]
    exact ⟨rfl, rfl⟩
  · intro shared h hsomewhere _
    have hinfo : (less a b).info = shared := by
      simp only [less, h]
      split_ifs <;> rfl
    rw [hinfo]
    exact ⟨hsomewhere.wellFormed, .refl shared⟩

theorem honest_greater :
    Honest [a.info, b.info] (greater a b).info (greater a b = .undefined) := by
  refine honest_less.mono (fun j hj => ⟨j, ?_, .refl j⟩) id
  simpa [or_comm] using hj

end Endpoint

/-! ### Functions that are not rational -/

section Elementary

variable [Elementary α] {a : Interval α}

theorem honest_exp (wellFormed : WellFormed a.info) :
    Honest [a.info] (exp a).info (exp a = undefined) := by
  apply honest_of_operand wellFormed
  · intro h
    simp [exp, h, undefined]
  · intro h _
    simp only [exp, h, if_true]
    exact ⟨wellFormed, .refl a.info⟩

theorem honest_ln (wellFormed : WellFormed a.info) :
    Honest [a.info] (ln a).info (ln a = undefined) := by
  apply honest_of_operand wellFormed
  · intro h
    simp [ln, h, undefined]
  · intro h hsomewhere
    simp only [ln]
    split_ifs
    · exact ⟨wellFormed_zero, zero_within a.info⟩
    · exact ⟨(Within.refl somewhere).wellFormed, hsomewhere⟩
    · exact ⟨wellFormed, .refl a.info⟩

theorem honest_sqrt (wellFormed : WellFormed a.info) :
    Honest [a.info] (sqrt a).info (sqrt a = undefined) := by
  apply honest_of_operand wellFormed
  · intro h
    simp [sqrt, h, undefined]
  · intro h hsomewhere
    have hleast : WellFormed somewhere ∧ Within somewhere a.info :=
      ⟨(Within.refl somewhere).wellFormed, hsomewhere⟩
    have hall : WellFormed a.info ∧ Within a.info a.info := ⟨wellFormed, .refl a.info⟩
    simp only [sqrt]
    split_ifs
    · exact ⟨wellFormed_zero, zero_within a.info⟩
    · exact hall
    · exact hleast
    · exact hleast
    · exact hall

end Elementary

end Interval

end Formula
