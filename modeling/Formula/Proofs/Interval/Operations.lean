import Formula.Proofs.Interval.Enclosure
import Mathlib.Algebra.Order.Field.Basic
/-!
Arithmetic and comparisons of intervals between exact numbers. Whatever signs their ends have, an
operation encloses what it does to the numbers of its operands, between ends that are in order.
-/

namespace Formula

namespace Exact

variable {p q : ℚ}

theorem rational_div (hq : q ≠ 0) : rational p / rational q = rational (p / q) :=
  if_neg hq

/-- What has a rational number between them is in order. -/
theorem le_of_rational_between {x y : Exact} (hx : Endpoint.le x (rational q) = true)
    (hy : Endpoint.le (rational q) y = true) : Endpoint.le x y = true := by
  rcases x with p | (_ | _) | _
  · rcases y with r | (_ | _) | _
    · rw [le_rational, decide_eq_true_eq] at *
      exact hx.trans hy
    · rfl
    · cases hy
    · cases hy
  · cases hx
  · rcases y with r | (_ | _) | _
    · rfl
    · rfl
    · rfl
    · cases hy
  · cases hx

end Exact

namespace Interval

open Info Endpoint Exact

variable {l h l' h' x y : ℚ} {i j : UInt8}

theorem le_of_contains {a : Interval Exact} (ha : a.contains (.rational x) = true) :
    Endpoint.le a.lo a.hi = true := by
  simp only [contains, Bool.and_eq_true] at ha
  exact le_of_rational_between ha.1.2 ha.2

/-! ### Quotients -/

theorem inv_reversed (clear : 0 < l ∨ h < 0) (hx : l ≤ x ∧ x ≤ h) : h⁻¹ ≤ x⁻¹ ∧ x⁻¹ ≤ l⁻¹ := by
  rcases clear with hpos | hneg
  · exact ⟨inv_anti₀ (hpos.trans_le hx.1) hx.2, inv_anti₀ hpos hx.1⟩
  · have hxneg : x < 0 := hx.2.trans_lt hneg
    exact ⟨(inv_le_inv_of_neg hneg hxneg).2 hx.2,
      (inv_le_inv_of_neg hxneg (hx.1.trans_lt hxneg)).2 hx.1⟩

section Pair

variable (shared : Within somewhere (i &&& j))

include shared

theorem div_between (hle : l' ≤ h') : div (between l h i) (between l' h' j) =
    if 0 < l' ∨ h' < 0 then
      hull ([l / l', h / l', l / h', h / h'].map Exact.rational) (i &&& j)
    else everything := by
  rw [div, common_between shared]
  simp only [between, ofInt_eq, lt_rational, Int.cast_zero, Bool.or_eq_true, decide_eq_true_eq]
  split_ifs with clear
  · have hends : l' ≠ 0 ∧ h' ≠ 0 := by
      rcases clear with hpos | hneg
      · exact ⟨hpos.ne', (hpos.trans_le hle).ne'⟩
      · exact ⟨(hle.trans_lt hneg).ne, hneg.ne⟩
    simp only [rational_div hends.1, rational_div hends.2, List.map_cons, List.map_nil]
  · rfl

/-- The quotients of the ends are their products with the reciprocals, which change places. -/
theorem div_encloses (hx : l ≤ x ∧ x ≤ h) (hy : l' ≤ y ∧ y ≤ h') :
    (div (between l h i) (between l' h' j)).contains (.rational (x / y)) = true := by
  rw [div_between shared (hy.1.trans hy.2)]
  split_ifs with clear
  · obtain ⟨⟨p, hp, hbelow⟩, q, hq, habove⟩ := mul_extremes hx (inv_reversed clear hy)
    refine hull_encloses (ne_zero_of_somewhere shared) ⟨p, ?_, ?_⟩ ⟨q, ?_, ?_⟩
    · simp only [div_eq_mul_inv, List.mem_cons] at hp ⊢
      tauto
    · rwa [div_eq_mul_inv]
    · simp only [div_eq_mul_inv, List.mem_cons] at hq ⊢
      tauto
    · rwa [div_eq_mul_inv]
  · exact everything_encloses _

/-- A quotient that is known to be defined everywhere has a divisor clear of zero. -/
theorem clear_of_div_everywhere (hle : l' ≤ h')
    (defined : has (div (between l h i) (between l' h' j)).info everywhere = true) :
    0 < l' ∨ h' < 0 := by
  by_contra around
  rw [div_between shared hle, if_neg around] at defined
  exact absurd defined (by decide)

/-! ### Comparisons -/

theorem less_encloses (hx : l ≤ x ∧ x ≤ h) (hy : l' ≤ y ∧ y ≤ h') :
    (less (between l h i) (between l' h' j)).lo ≤ decide (x < y) ∧
      decide (x < y) ≤ (less (between l h i) (between l' h' j)).hi := by
  rw [less, common_between shared]
  simp only [between, lt_rational, le_rational, decide_eq_true_eq]
  split_ifs with hbelow habove
  · have hlt : x < y := hx.2.trans_lt (hbelow.trans_le hy.1)
    simp [hlt]
  · have hle : ¬x < y := not_lt.2 (hy.2.trans (habove.trans hx.1))
    simp [hle]
  · exact ⟨Bool.false_le _, Bool.le_true _⟩

end Pair

/-! ### Absolute values -/

theorem abs_encloses (hi : i ≠ 0) (hx : l ≤ x ∧ x ≤ h) :
    (abs (between l h i)).contains (.rational |x|) = true := by
  rw [abs, isDefined_between hi]
  simp only [between, ofInt_eq, le_rational, Int.cast_zero, neg_rational, maximum_rational,
    decide_eq_true_eq, Bool.not_true, Bool.false_eq_true, if_false]
  split_ifs with hpos hneg
  · rw [abs_of_nonneg (hpos.trans hx.1)]
    exact contains_between.2 ⟨hi, hx⟩
  · rw [abs_of_nonpos (hx.2.trans hneg)]
    exact contains_between.2 ⟨hi, neg_le_neg hx.2, neg_le_neg hx.1⟩
  · have hmax : |x| ≤ max h (-l) :=
      abs_le'.2 ⟨hx.2.trans (le_max_left _ _), (neg_le_neg hx.1).trans (le_max_right _ _)⟩
    exact contains_between.2 ⟨hi, abs_nonneg x, hmax⟩

/-! ### All operations -/

/-- A range between two rational numbers in order that is defined somewhere. -/
def Proper (a : Interval Exact) : Prop :=
  ∃ (l h : ℚ) (i : UInt8), a = between l h i ∧ l ≤ h ∧ has i somewhere = true

variable {a b : Interval Exact}

/-- Sums, differences, products, quotients, negatives and absolute values hold those of any numbers,
and are in order. A quotient that is defined everywhere has no zero in its divisor. A comparison has
that of any numbers between its ends. -/
theorem operations_enclose (ha : a.Proper) (hb : b.Proper) :
    (∀ x y : ℚ, a.contains (.rational x) = true → b.contains (.rational y) = true →
      (add a b).contains (.rational (x + y)) = true ∧
      (sub a b).contains (.rational (x - y)) = true ∧
      (mul a b).contains (.rational (x * y)) = true ∧
      (y ≠ 0 → (div a b).contains (.rational (x / y)) = true) ∧
      (neg a).contains (.rational (-x)) = true ∧
      (abs a).contains (.rational |x|) = true ∧
      ((less a b).lo ≤ decide (x < y) ∧ decide (x < y) ≤ (less a b).hi) ∧
      ((greater a b).lo ≤ decide (x > y) ∧ decide (x > y) ≤ (greater a b).hi)) ∧
    (∀ r ∈ [add a b, sub a b, mul a b, div a b, neg a, abs a], Endpoint.le r.lo r.hi = true) ∧
    (has (div a b).info everywhere = true → b.contains (.rational 0) = false) := by
  obtain ⟨l, h, i, rfl, hlh, hi⟩ := ha
  obtain ⟨l', h', j, rfl, hlh', hj⟩ := hb
  rw [has_somewhere_iff] at hi hj
  have shared : Within somewhere (i &&& j) := hi.and hj
  have shared' : Within somewhere (j &&& i) := hj.and hi
  have hdefined : i ≠ 0 := ne_zero_of_somewhere hi
  refine ⟨fun x y hx hy => ?_, ?_, fun defined => ?_⟩
  · have hx := (contains_between.1 hx).2
    have hy := (contains_between.1 hy).2
    exact ⟨add_encloses shared hx hy, sub_encloses shared hx hy, mul_encloses shared hx hy,
      fun _ => div_encloses shared hx hy, neg_encloses hdefined hx, abs_encloses hdefined hx,
      less_encloses shared hx hy, less_encloses shared' hy hx⟩
  · -- the lower ends are numbers of the operands, so that each result holds a number
    have hx : l ≤ l ∧ l ≤ h := ⟨le_rfl, hlh⟩
    have hy : l' ≤ l' ∧ l' ≤ h' := ⟨le_rfl, hlh'⟩
    simp only [List.forall_mem_cons]
    exact ⟨le_of_contains (add_encloses shared hx hy), le_of_contains (sub_encloses shared hx hy),
      le_of_contains (mul_encloses shared hx hy), le_of_contains (div_encloses shared hx hy),
      le_of_contains (neg_encloses hdefined hx), le_of_contains (abs_encloses hdefined hx),
      by simp⟩
  · rw [← Bool.not_eq_true, contains_between]
    rintro ⟨-, hlow, hhigh⟩
    rcases clear_of_div_everywhere shared hlh' defined with hpos | hneg
    · exact absurd hpos (not_lt.2 hlow)
    · exact absurd hneg (not_lt.2 hhigh)

/-- A dividend around zero and a negative divisor: the quotients change sides, and numbers that two
ranges share leave a comparison open. -/
theorem operations_enclose_negative : (between (-2) 3 all).Proper ∧ (between (-4) (-1) all).Proper ∧
    (div (between (-2) 3 all) (between (-4) (-1) all)).contains (.rational (3 / -1)) = true ∧
    (abs (between (-2) 3 all)).contains (.rational |-2|) = true ∧
    (less (between (-2) 3 all) (between (-4) (-1) all)).lo ≤ decide ((-2 : ℚ) < -1) ∧
    (between (-4) (-1) all).contains (.rational 0) = false := by
  have ha : (between (-2) 3 all).Proper := ⟨-2, 3, all, rfl, by norm_num, by decide⟩
  have hb : (between (-4) (-1) all).Proper := ⟨-4, -1, all, rfl, by norm_num, by decide⟩
  obtain ⟨hencloses, -, hclear⟩ := operations_enclose ha hb
  obtain ⟨-, -, -, hdiv, -⟩ := hencloses 3 (-1) (by decide +kernel) (by decide +kernel)
  obtain ⟨-, -, -, -, -, habs, hless, -⟩ :=
    hencloses (-2) (-1) (by decide +kernel) (by decide +kernel)
  exact ⟨ha, hb, hdiv (by norm_num), habs, hless.1, hclear (by decide +kernel)⟩

end Interval

end Formula
