import Formula.Library.Types
import Formula.Proofs.Double.Fraction
import Formula.Proofs.Interval.Exponents
/-!
Ranges of doubles between integers. What the operations on integers make of them is again between
integers, or has an end that is not finite; the latter is not taken for a range of integers.
-/

namespace Formula

open Endpoint

namespace Double

variable {x y : Double} {n : Int}

theorem isFinite_of_toInt? (h : Endpoint.toInt? x = some n) : x.isFinite = true := by
  have hinteger : (Binary.ofDouble x).toInt? = some n := h
  rw [← Bool.not_eq_false]
  intro hfinite
  rcases ofDouble_of_not_finite hfinite with heq | heq <;>
    · rw [heq] at hinteger
      cases hinteger

theorem isSome_toInt?_iff : (Endpoint.toInt? x).isSome = true ↔ x.Whole ∧ x.isFinite = true := by
  constructor
  · intro h
    obtain ⟨n, hn⟩ := Option.isSome_iff_exists.1 h
    exact ⟨fun _ => h, isFinite_of_toInt? hn⟩
  · exact fun h => h.1 h.2

/-- A number is an integer of its sign, and zero if it has no digits. -/
theorem sign_of_toInt? {negative : Bool} {m : Nat} {q : Int}
    (h : Binary.toInt? (.finite negative m q) = some n) :
    ∃ k : Nat, (m = 0 → k = 0) ∧ n = if negative then -(k : Int) else k := by
  obtain ⟨k, hk, rfl⟩ := Option.map_eq_some_iff.1 h
  refine ⟨k, fun hm => ?_, rfl⟩
  rw [if_pos hm] at hk
  exact (Option.some.inj hk).symm

/-- A finite number is not below zero if its rank is not. -/
theorem zero_le_iff (h : x.isFinite = true) :
    Endpoint.le (Endpoint.ofInt 0) x = true ↔ 0 ≤ x.rank := by
  have hrelated : Endpoint.le (Endpoint.ofInt 0) x =
      related (fun m n => decide (m ≤ n)) (ofInt 0) x := rfl
  have hzero : (ofInt 0).isNaN = false ∧ (ofInt 0).rank = 0 := by decide +kernel
  simp [hrelated, related, hzero, isNaN_of_isFinite h]

/-- An integer that is not below zero is natural. -/
theorem nonneg_of_toInt? (h : Endpoint.toInt? x = some n)
    (hx : Endpoint.le (Endpoint.ofInt 0) x = true) : 0 ≤ n := by
  have hfinite := isFinite_of_toInt? h
  have hrank := (zero_le_iff hfinite).1 hx
  have hinteger : (Binary.ofDouble x).toInt? = some n := h
  rw [ofDouble_eq hfinite] at hinteger
  unfold rank at hrank
  cases hnegative : x.isNegative with
  | false =>
    rw [hnegative] at hinteger
    split at hinteger <;>
      · obtain ⟨k, -, rfl⟩ := sign_of_toInt? hinteger
        exact Int.natCast_nonneg k
  | true =>
    -- only zero has both a minus and a rank that is not negative
    rw [hnegative, if_pos rfl] at hrank
    have hmagnitude : x.magnitude = 0 := by omega
    have hstored : x.stored.toNat = 0 := by rw [toNat_stored, hmagnitude, Nat.zero_mod]
    have hfield : x.field = 0 := by
      rw [← BitVec.toNat_inj, toNat_field, hmagnitude, Nat.zero_div]
      rfl
    rw [if_pos hfield] at hinteger
    obtain ⟨k, hk, rfl⟩ := sign_of_toInt? hinteger
    simp [hk hstored]

/-- An integer above zero is not below it. -/
theorem zero_le_of_toInt? (h : Endpoint.toInt? x = some n) (hn : 0 < n) :
    Endpoint.le (Endpoint.ofInt 0) x = true := by
  have hfinite := isFinite_of_toInt? h
  have hinteger : (Binary.ofDouble x).toInt? = some n := h
  rw [ofDouble_eq hfinite] at hinteger
  rw [zero_le_iff hfinite, rank]
  cases hnegative : x.isNegative with
  | false => simp
  | true =>
    rw [hnegative] at hinteger
    split at hinteger <;>
      · obtain ⟨k, -, rfl⟩ := sign_of_toInt? hinteger
        simp at hn
        omega

/-- A finite number lies strictly between the infinities. -/
theorem rank_lt_of_isFinite (h : x.isFinite = true) :
    x.rank < infinityBits ∧ -(infinityBits : Int) < x.rank := by
  have hlt : x.magnitude < infinityBits := of_decide_eq_true h
  unfold rank
  split <;> omega

end Double

namespace Interval

variable {a b : Interval Double} {info : UInt8} {n : Int}

/-- The ends of a range, if it is defined, are integers as far as they are finite. -/
def WholeEnds (a : Interval Double) : Prop :=
  a.isDefined = true → a.lo.Whole ∧ a.hi.Whole

/-- A range is defined, and does not lie between two finite numbers. -/
def Unbounded (a : Interval Double) : Prop :=
  a.isDefined = true ∧ ¬(a.lo.isFinite = true ∧ a.hi.isFinite = true)

instance (a : Interval Double) : Decidable a.Unbounded :=
  inferInstanceAs (Decidable (_ ∧ _))

theorem wholeEnds_undefined : WholeEnds undefined :=
  fun h => nomatch h

/-- The ranges that count as ranges of integers. -/
theorem isIntegerInterval_iff :
    Library.isIntegerInterval (.interval a) = true ↔ a.WholeEnds ∧ ¬a.Unbounded := by
  simp only [Library.isIntegerInterval, Bool.or_eq_true, Bool.not_eq_true', Bool.and_eq_true,
    Double.fract_eq_zero_iff, WholeEnds, Unbounded]
  cases a.isDefined with
  | false => simp
  | true => simp [and_and_and_comm]

/-! ### Operations -/

theorem wholeEnds_point {x : Double} (h : x.Whole) : WholeEnds (point x) := by
  unfold point
  split
  · exact wholeEnds_undefined
  · exact fun _ => ⟨h, h⟩

theorem wholeEnds_everything : WholeEnds everything :=
  fun _ => ⟨Double.whole_of_not_finite (by decide), Double.whole_of_not_finite (by decide)⟩

theorem unbounded_everything : Unbounded everything := by
  decide

/-- A result of two operands has whole ends, if it does where both are defined. -/
theorem wholeEnds_of_common {r : Interval Double} (ha : a.WholeEnds) (hb : b.WholeEnds)
    (hnone : common a b = none → r = undefined)
    (hsome : ∀ info, common a b = some info → a.lo.Whole ∧ a.hi.Whole → b.lo.Whole ∧ b.hi.Whole →
      r.WholeEnds) : r.WholeEnds := by
  cases h : common a b with
  | none => exact hnone h ▸ wholeEnds_undefined
  | some info =>
    obtain ⟨hdefined, hdefined'⟩ := isDefined_of_common h
    exact hsome info h (ha hdefined) (hb hdefined')

theorem WholeEnds.add (ha : a.WholeEnds) (hb : b.WholeEnds) : (a.add b).WholeEnds := by
  refine wholeEnds_of_common ha hb (fun h => by rw [Interval.add, h]) fun info h hl hr => ?_
  rw [Interval.add, h]
  exact fun _ => ⟨hl.1.add hr.1, hl.2.add hr.2⟩

theorem WholeEnds.sub (ha : a.WholeEnds) (hb : b.WholeEnds) : (a.sub b).WholeEnds := by
  refine wholeEnds_of_common ha hb (fun h => by rw [Interval.sub, h]) fun info h hl hr => ?_
  rw [Interval.sub, h]
  exact fun _ => ⟨hl.1.sub hr.2, hl.2.sub hr.1⟩

theorem whole_minimum {x y : Double} (hx : x.Whole) (hy : y.Whole) : (minimum x y).Whole := by
  unfold minimum
  split_ifs
  all_goals assumption

theorem whole_maximum {x y : Double} (hx : x.Whole) (hy : y.Whole) : (maximum x y).Whole := by
  unfold maximum
  split_ifs
  all_goals assumption

theorem whole_hull {xs : List Double} (hxs : ∀ x ∈ xs, x.Whole) (info : UInt8) :
    (hull xs info).lo.Whole ∧ (hull xs info).hi.Whole := by
  have hinfinity : Double.Whole infinity := Double.whole_of_not_finite (by decide)
  have hleast : Double.Whole (-infinity) := Double.whole_of_not_finite (by decide)
  exact ⟨List.foldlRecOn xs minimum hinfinity fun x hx y hy => whole_minimum hx (hxs y hy),
    List.foldlRecOn xs maximum hleast fun x hx y hy => whole_maximum hx (hxs y hy)⟩

theorem WholeEnds.mul (ha : a.WholeEnds) (hb : b.WholeEnds) : (a.mul b).WholeEnds := by
  refine wholeEnds_of_common ha hb (fun h => by rw [Interval.mul, h]) fun info h hl hr => ?_
  rw [Interval.mul, h]
  refine fun _ => whole_hull ?_ info
  simp only [List.forall_mem_cons, List.not_mem_nil, false_imp_iff, implies_true, and_true]
  exact ⟨hl.1.mul hr.1, hl.2.mul hr.1, hl.1.mul hr.2, hl.2.mul hr.2⟩

theorem WholeEnds.neg (ha : a.WholeEnds) : a.neg.WholeEnds := by
  unfold Interval.neg
  split
  · exact fun h => ⟨(ha h).2.neg, (ha h).1.neg⟩
  · exact wholeEnds_undefined

/-! ### Powers -/

theorem whole_power {x : Double} (hx : x.Whole) (k : Nat) : (power (ofInt 1) x k).Whole :=
  (Double.whole_ofInt 1).powerOnto hx _ k

theorem WholeEnds.powNat (ha : a.WholeEnds) (k : Nat) : (a.powNat k).WholeEnds := by
  unfold Interval.powNat
  cases hdefined : a.isDefined with
  | false => exact wholeEnds_undefined
  | true =>
    obtain ⟨hlo, hhi⟩ := ha hdefined
    simp only [Bool.not_true, Bool.false_eq_true, if_false]
    split_ifs
    · exact fun _ => ⟨Double.whole_ofInt 1, Double.whole_ofInt 1⟩
    · exact fun _ => ⟨whole_power hlo k, whole_power hhi k⟩
    · exact fun _ => ⟨whole_power hhi k, whole_power hlo k⟩
    · exact fun _ => ⟨Double.whole_ofInt 0, whole_maximum (whole_power hlo k) (whole_power hhi k)⟩

/-- The powers with a negative exponent are those of one and minus one, and zero. -/
theorem mem_truncatedPowers {isEven : Bool} {x : Double} (h : x ∈ truncatedPowers a isEven) :
    ∃ n ∈ [1, -1, 0], x = Double.ofInt n := by
  simp only [truncatedPowers, List.mem_append, List.mem_ite_nil_right, List.mem_singleton] at h
  rcases h with (⟨-, rfl⟩ | ⟨-, rfl⟩) | ⟨-, rfl⟩
  · exact ⟨1, by simp, rfl⟩
  · cases isEven
    · exact ⟨-1, by simp, rfl⟩
    · exact ⟨1, by simp, rfl⟩
  · exact ⟨0, by simp, rfl⟩

theorem WholeEnds.pow_of_nonneg (ha : a.WholeEnds) (shared : common a b = some info)
    (single : single? b = some n) (hzero : 0 ≤ n) : (a.pow b).WholeEnds := by
  by_cases small : n ≤ Interval.greatestExponent
  · rw [Interval.pow_of_nonneg shared single hzero small]
    have hdefined : (Interval.powNat a n.toNat).isDefined = true := by
      rw [isDefined_eq_true, info_powNat (isDefined_of_common shared).1]
      exact isDefined_eq_true.1 (isDefined_of_common shared).1
    exact fun _ => ha.powNat n.toNat hdefined
  · rw [pow_of_great shared single (by omega)]
    exact wholeEnds_everything

theorem WholeEnds.intPow (ha : a.WholeEnds) (hb : b.WholeEnds) : (a.intPow b).WholeEnds := by
  refine wholeEnds_of_common ha hb (fun h => by rw [Interval.intPow, h]) fun info h _ _ => ?_
  cases hsingle : single? b with
  | none =>
    rw [intPow_of_many h hsingle]
    exact wholeEnds_everything
  | some n =>
    cases hle : Endpoint.le (ofInt 0) b.lo with
    | true =>
      rw [intPow_of_nonneg h hsingle hle]
      exact ha.pow_of_nonneg h hsingle (Double.nonneg_of_toInt? (toInt?_of_single? hsingle) hle)
    | false =>
      have hhull : ∀ x ∈ truncatedPowers a (n % 2 = 0), x.Whole := by
        intro x hx
        obtain ⟨m, -, rfl⟩ := mem_truncatedPowers hx
        exact Double.whole_ofInt m
      rw [intPow_of_neg h hsingle hle rfl]
      split_ifs
      · exact wholeEnds_undefined
      · exact fun _ => whole_hull hhull info
      · exact fun _ => whole_hull hhull info

/-! ### Where a range of integers is left -/

theorem isNaN_eq (x : Double) : Endpoint.isNaN x = x.isNaN := by
  have hle : Endpoint.isNaN x = !Double.related (fun m n => decide (m ≤ n)) x x := rfl
  simp [hle, Double.related]

theorem lt_of_rank {x y : Double} (hx : x.isNaN = false) (hy : y.isNaN = false)
    (h : x.rank < y.rank) : Endpoint.lt x y = true := by
  have hlt : Endpoint.lt x y = Double.related (fun m n => decide (m < n)) x y := rfl
  simp [hlt, Double.related, hx, hy, h]

theorem minimum_infinity_of_isFinite {x : Double} (hx : x.isFinite = true) :
    minimum infinity x = x := by
  have hinfinity : Double.isNaN infinity = false := by decide
  have hrank : Double.rank infinity = Double.infinityBits := by decide
  have hnan := Double.isNaN_of_isFinite hx
  have hlt : Endpoint.lt x infinity = true :=
    lt_of_rank hnan hinfinity (hrank ▸ (Double.rank_lt_of_isFinite hx).1)
  simp [minimum, isNaN_eq, hinfinity, hnan, hlt]

theorem maximum_infinity_of_isFinite {x : Double} (hx : x.isFinite = true) :
    maximum (-infinity) x = x := by
  have hinfinity : Double.isNaN (-infinity) = false := by decide
  have hrank : Double.rank (-infinity) = -Double.infinityBits := by decide
  have hnan := Double.isNaN_of_isFinite hx
  have hlt : Endpoint.lt (-infinity) x = true :=
    lt_of_rank hinfinity hnan (hrank ▸ (Double.rank_lt_of_isFinite hx).2)
  simp [maximum, isNaN_eq, hinfinity, hnan, hlt]

theorem isFinite_minimum {x y : Double} (hx : x.isFinite = true) (hy : y.isFinite = true) :
    (minimum x y).isFinite = true := by
  unfold minimum
  split_ifs
  all_goals assumption

theorem isFinite_maximum {x y : Double} (hx : x.isFinite = true) (hy : y.isFinite = true) :
    (maximum x y).isFinite = true := by
  unfold maximum
  split_ifs
  all_goals assumption

/-- The hull of one or more finite numbers lies between finite numbers. -/
theorem isFinite_hull {x : Double} {xs : List Double} (hxs : ∀ y ∈ x :: xs, y.isFinite = true)
    (info : UInt8) :
    (hull (x :: xs) info).lo.isFinite = true ∧ (hull (x :: xs) info).hi.isFinite = true := by
  obtain ⟨hx, hxs⟩ := List.forall_mem_cons.1 hxs
  unfold hull
  rw [List.foldl_cons, List.foldl_cons, minimum_infinity_of_isFinite hx,
    maximum_infinity_of_isFinite hx]
  constructor
  · exact List.foldlRecOn xs minimum (motive := fun y => y.isFinite = true) hx
      fun y hy z hz => isFinite_minimum hy (hxs z hz)
  · exact List.foldlRecOn xs maximum (motive := fun y => y.isFinite = true) hx
      fun y hy z hz => isFinite_maximum hy (hxs z hz)

theorem not_unbounded_undefined : ¬Unbounded undefined :=
  fun h => nomatch h.1

/-- The negative of a range between finite numbers is one. -/
theorem not_unbounded_neg (h : ¬a.Unbounded) : ¬a.neg.Unbounded := by
  unfold Interval.neg
  split
  case isTrue hdefined =>
    refine fun hneg => h ⟨hdefined, fun hfinite => hneg.2 ?_⟩
    exact ⟨(Double.isFinite_neg a.hi).trans hfinite.2, (Double.isFinite_neg a.lo).trans hfinite.1⟩
  case isFalse => exact not_unbounded_undefined

/-- With more than one exponent, or one that is too great, nothing is known of a power. -/
theorem unbounded_intPow (shared : common a b = some info)
    (h : ∀ n, single? b = some n → Interval.greatestExponent < n) : (a.intPow b).Unbounded := by
  cases hsingle : single? b with
  | none =>
    rw [intPow_of_many shared hsingle]
    exact unbounded_everything
  | some n =>
    have hgreat := h n hsingle
    have hle := Double.zero_le_of_toInt? (toInt?_of_single? hsingle) (by omega)
    rw [intPow_of_nonneg shared hsingle hle, pow_of_great shared hsingle (by omega)]
    exact unbounded_everything

/-- With a negative exponent all powers lie between minus one and one. -/
theorem not_unbounded_intPow (single : single? b = some n) (hn : n < 0) :
    ¬(a.intPow b).Unbounded := by
  cases shared : common a b with
  | none =>
    rw [Interval.intPow, shared]
    exact not_unbounded_undefined
  | some info =>
    have hle : Endpoint.le (ofInt 0) b.lo = false := by
      rw [← Bool.not_eq_true]
      intro hle
      have := Double.nonneg_of_toInt? (toInt?_of_single? single) hle
      omega
    have hpowers : ∀ x ∈ truncatedPowers a (n % 2 = 0), x.isFinite = true := by
      intro x hx
      obtain ⟨m, hm, rfl⟩ := mem_truncatedPowers hx
      have hall : ∀ m ∈ ([1, -1, 0] : List Int), (Double.ofInt m).isFinite = true := by
        decide +kernel
      exact hall m hm
    rw [intPow_of_neg shared single hle rfl]
    cases htruncated : truncatedPowers a (n % 2 = 0) with
    | nil =>
      -- the hull of nothing runs from the greatest number down to the least
      have hempty : Endpoint.lt (-infinity : Double) infinity = true := by decide
      rw [if_pos (show Endpoint.lt (hull [] info).hi (hull [] info).lo = true from hempty)]
      exact not_unbounded_undefined
    | cons x xs =>
      have hfinite := isFinite_hull (htruncated ▸ hpowers) info
      split_ifs
      · exact not_unbounded_undefined
      · exact fun h => h.2 hfinite
      · exact fun h => h.2 hfinite

end Interval

end Formula
