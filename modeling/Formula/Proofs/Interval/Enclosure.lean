import Formula.Proofs.Interval.Exact
import Formula.Proofs.Interval.Exponents
import Mathlib.Algebra.Order.Ring.Int
import Mathlib.Algebra.Ring.Parity
/-!
Intervals between exact numbers enclose: the result of an operation holds what the operation makes
of any numbers of its operands.
-/

namespace Formula.Interval

open Info Endpoint Exact

/-- The range between two rational numbers. -/
def between (l h : ℚ) (info : UInt8) : Interval Exact :=
  ⟨.rational l, .rational h, info⟩

variable {l h l' h' x y : ℚ} {i j : UInt8}

theorem contains_between :
    (between l h i).contains (.rational x) = true ↔ i ≠ 0 ∧ l ≤ x ∧ x ≤ h := by
  simp [between, contains, isDefined, and_assoc]

theorem isDefined_between (hi : i ≠ 0) : (between l h i).isDefined = true :=
  isDefined_eq_true.2 hi

theorem common_between (shared : Within somewhere (i &&& j)) :
    common (between l h i) (between l' h' j) = some (i &&& j) :=
  common_eq_some.2 ⟨rfl, shared⟩

/-! ### Hulls -/

theorem hull_eq (q : ℚ) (qs : List ℚ) (info : UInt8) :
    hull ((q :: qs).map Exact.rational) info = between (qs.foldl min q) (qs.foldl max q) info := by
  simp only [hull, List.map_cons, List.foldl_cons, minimum_infinity, maximum_infinity,
    foldl_minimum, foldl_maximum, between]

theorem foldl_min_le (q : ℚ) (qs : List ℚ) : ∀ p ∈ q :: qs, qs.foldl min q ≤ p := by
  induction qs generalizing q with
  | nil => simp
  | cons r qs ih =>
    have hmin : qs.foldl min (min q r) ≤ min q r := ih _ _ List.mem_cons_self
    simp only [List.forall_mem_cons, List.foldl_cons]
    exact ⟨hmin.trans (min_le_left q r), hmin.trans (min_le_right q r),
      fun p hp => ih _ p (List.mem_cons_of_mem _ hp)⟩

theorem le_foldl_max (q : ℚ) (qs : List ℚ) : ∀ p ∈ q :: qs, p ≤ qs.foldl max q := by
  induction qs generalizing q with
  | nil => simp
  | cons r qs ih =>
    have hmax : max q r ≤ qs.foldl max (max q r) := ih _ _ List.mem_cons_self
    simp only [List.forall_mem_cons, List.foldl_cons]
    exact ⟨(le_max_left q r).trans hmax, (le_max_right q r).trans hmax,
      fun p hp => ih _ p (List.mem_cons_of_mem _ hp)⟩

/-- A hull holds whatever lies between two of its numbers. -/
theorem hull_encloses {qs : List ℚ} (hi : i ≠ 0) (below : ∃ p ∈ qs, p ≤ x)
    (above : ∃ p ∈ qs, x ≤ p) : (hull (qs.map Exact.rational) i).contains (.rational x) = true := by
  cases qs with
  | nil => simp at below
  | cons q qs =>
    obtain ⟨p, hp, hpx⟩ := below
    obtain ⟨p', hp', hxp⟩ := above
    rw [hull_eq]
    exact contains_between.2
      ⟨hi, (foldl_min_le q qs p hp).trans hpx, hxp.trans (le_foldl_max q qs p' hp')⟩

/-! ### Sums, differences and products -/

section Pair

variable (shared : Within somewhere (i &&& j))

include shared

theorem add_between :
    add (between l h i) (between l' h' j) = between (l + l') (h + h') (i &&& j) := by
  rw [add, common_between shared]
  rfl

theorem sub_between :
    sub (between l h i) (between l' h' j) = between (l - h') (h - l') (i &&& j) := by
  rw [sub, common_between shared]
  simp only [between, rational_sub]

theorem mul_between : mul (between l h i) (between l' h' j) =
    hull ([l * l', h * l', l * h', h * h'].map Exact.rational) (i &&& j) := by
  rw [mul, common_between shared]
  rfl

theorem add_encloses (hx : l ≤ x ∧ x ≤ h) (hy : l' ≤ y ∧ y ≤ h') :
    (add (between l h i) (between l' h' j)).contains (.rational (x + y)) = true := by
  rw [add_between shared]
  exact contains_between.2
    ⟨ne_zero_of_somewhere shared, add_le_add hx.1 hy.1, add_le_add hx.2 hy.2⟩

theorem sub_encloses (hx : l ≤ x ∧ x ≤ h) (hy : l' ≤ y ∧ y ≤ h') :
    (sub (between l h i) (between l' h' j)).contains (.rational (x - y)) = true := by
  rw [sub_between shared]
  exact contains_between.2
    ⟨ne_zero_of_somewhere shared, sub_le_sub hx.1 hy.2, sub_le_sub hx.2 hy.1⟩

omit shared in
/-- A product is monotonic in a factor, one way or the other. -/
theorem mul_monotonic (hx : l ≤ x ∧ x ≤ h) (y : ℚ) :
    (l * y ≤ x * y ∧ x * y ≤ h * y) ∨ (h * y ≤ x * y ∧ x * y ≤ l * y) := by
  rcases le_total 0 y with hy | hy
  · exact .inl ⟨mul_le_mul_of_nonneg_right hx.1 hy, mul_le_mul_of_nonneg_right hx.2 hy⟩
  · exact .inr ⟨mul_le_mul_of_nonpos_right hx.2 hy, mul_le_mul_of_nonpos_right hx.1 hy⟩

omit shared in
/-- A product lies between products of the ends. -/
theorem mul_extremes (hx : l ≤ x ∧ x ≤ h) (hy : l' ≤ y ∧ y ≤ h') :
    (∃ p ∈ [l * l', h * l', l * h', h * h'], p ≤ x * y) ∧
    ∃ p ∈ [l * l', h * l', l * h', h * h'], x * y ≤ p := by
  -- from one end of `y` to the other, the product with an end of `x` goes up or down
  have hend : ∀ e, e * l' ∈ [l * l', h * l', l * h', h * h'] →
      e * h' ∈ [l * l', h * l', l * h', h * h'] →
      (∃ p ∈ [l * l', h * l', l * h', h * h'], p ≤ e * y) ∧
        ∃ p ∈ [l * l', h * l', l * h', h * h'], e * y ≤ p := by
    intro e hlow hhigh
    have hmonotonic := mul_monotonic hy e
    simp only [mul_comm _ e] at hmonotonic
    rcases hmonotonic with ⟨hle, hge⟩ | ⟨hle, hge⟩
    · exact ⟨⟨_, hlow, hle⟩, _, hhigh, hge⟩
    · exact ⟨⟨_, hhigh, hle⟩, _, hlow, hge⟩
  obtain ⟨⟨p, hp, hpl⟩, q, hq, hlq⟩ := hend l (by simp) (by simp)
  obtain ⟨⟨p', hp', hph⟩, q', hq', hhq⟩ := hend h (by simp) (by simp)
  rcases mul_monotonic hx y with ⟨hle, hge⟩ | ⟨hle, hge⟩
  · exact ⟨⟨p, hp, hpl.trans hle⟩, q', hq', hge.trans hhq⟩
  · exact ⟨⟨p', hp', hph.trans hle⟩, q, hq, hge.trans hlq⟩

theorem mul_encloses (hx : l ≤ x ∧ x ≤ h) (hy : l' ≤ y ∧ y ≤ h') :
    (mul (between l h i) (between l' h' j)).contains (.rational (x * y)) = true := by
  obtain ⟨hbelow, habove⟩ := mul_extremes hx hy
  rw [mul_between shared]
  exact hull_encloses (ne_zero_of_somewhere shared) hbelow habove

end Pair

theorem neg_between (hi : i ≠ 0) : neg (between l h i) = between (-h) (-l) i := by
  rw [neg, if_pos (isDefined_between hi)]
  rfl

theorem neg_encloses (hi : i ≠ 0) (hx : l ≤ x ∧ x ≤ h) :
    (neg (between l h i)).contains (.rational (-x)) = true := by
  rw [neg_between hi]
  exact contains_between.2 ⟨hi, neg_le_neg hx.2, neg_le_neg hx.1⟩

/-! ### Powers -/

/-- An even power goes down below zero and up above. -/
theorem pow_le_max {k : Nat} (hk : Even k) (hx : l ≤ x ∧ x ≤ h) : x ^ k ≤ max (l ^ k) (h ^ k) := by
  rcases le_total 0 x with hzero | hzero
  · exact (pow_le_pow_left₀ hzero hx.2 k).trans (le_max_right _ _)
  · have hflipped : (-x) ^ k ≤ (-l) ^ k :=
      pow_le_pow_left₀ (neg_nonneg.2 hzero) (neg_le_neg hx.1) k
    rw [hk.neg_pow, hk.neg_pow] at hflipped
    exact hflipped.trans (le_max_left _ _)

theorem powNat_between (hi : i ≠ 0) (k : Nat) : powNat (between l h i) k =
    if k = 0 then between 1 1 i
    else if k % 2 = 1 ∨ 0 ≤ l then between (l ^ k) (h ^ k) i
    else if h ≤ 0 then between (h ^ k) (l ^ k) i
    else between 0 (max (l ^ k) (h ^ k)) i := by
  have hone : (ofInt 1 : Exact) = .rational 1 := by simp
  rw [powNat, isDefined_between hi]
  simp only [between, hone, power_rational, maximum_rational, ofInt_eq, le_rational, Int.cast_zero,
    Bool.not_true, Bool.false_eq_true, if_false, Bool.or_eq_true, decide_eq_true_eq]

theorem powNat_encloses (hi : i ≠ 0) (hx : l ≤ x ∧ x ≤ h) (k : Nat) :
    (powNat (between l h i) k).contains (.rational (x ^ k)) = true := by
  rw [powNat_between hi]
  split_ifs with hk hmonotonic hneg
  · subst hk
    exact contains_between.2 ⟨hi, by simp⟩
  · refine contains_between.2 ⟨hi, ?_⟩
    rcases hmonotonic with hodd | hzero
    · have hmono := (Nat.odd_iff.2 hodd).strictMono_pow (R := ℚ)
      exact ⟨hmono.monotone hx.1, hmono.monotone hx.2⟩
    · exact ⟨pow_le_pow_left₀ hzero hx.1 k, pow_le_pow_left₀ (hzero.trans hx.1) hx.2 k⟩
  · have heven : Even k := Nat.not_odd_iff_even.1 fun hodd => hmonotonic (.inl (Nat.odd_iff.1 hodd))
    have hflip : ∀ {p q : ℚ}, p ≤ q → q ≤ 0 → q ^ k ≤ p ^ k := by
      intro p q hpq hq
      rw [← heven.neg_pow q, ← heven.neg_pow p]
      exact pow_le_pow_left₀ (neg_nonneg.2 hq) (neg_le_neg hpq) k
    exact contains_between.2 ⟨hi, hflip hx.2 hneg, hflip hx.1 (hx.2.trans hneg)⟩
  · have heven : Even k := Nat.not_odd_iff_even.1 fun hodd => hmonotonic (.inl (Nat.odd_iff.1 hodd))
    exact contains_between.2 ⟨hi, heven.pow_nonneg x, pow_le_max heven hx⟩

/-! ### Powers of integers -/

theorem single?_between (n : Int) : single? (between n n j) = some n := by
  simp [single?, between]

theorem eq_of_single? {n : Int} (single : single? (between l h i) = some n) : l = n ∧ h = n := by
  unfold single? at single
  split at single
  · rename_i heq
    simp only [between, eq_rational, decide_eq_true_eq] at heq
    subst heq
    have hden : (if l.den = 1 then some l.num else none) = some n := single
    split at hden
    · rename_i hone
      cases hden
      exact ⟨(Rat.coe_int_num_of_den_eq_one hone).symm, (Rat.coe_int_num_of_den_eq_one hone).symm⟩
    · cases hden
  · cases single

/-- Nothing lies outside a range that stands for everything. -/
theorem everything_encloses (x : ℚ) : everything.contains (Exact.rational x) = true := rfl

/-- With flags that are left, a range holds what it held. -/
theorem contains_of_info {a : Interval Exact} {info : UInt8} (hinfo : info ≠ 0)
    (ha : a.contains (Exact.rational x) = true) :
    ({ a with info } : Interval Exact).contains (Exact.rational x) = true := by
  simp only [contains, isDefined, Bool.and_eq_true] at ha ⊢
  exact ⟨⟨by simpa using hinfo, ha.1.2⟩, ha.2⟩

theorem intPow_of_neg_between {a b : Interval Exact} {info : UInt8} {n : Int}
    (shared : common a b = some info) (single : single? b = some n)
    (hzero : Endpoint.le (ofInt 0) b.lo = false)
    (hhull : hull (truncatedPowers a (n % 2 = 0)) info = between l h info) (hlh : l ≤ h) :
    intPow a b = between l h info ∨ intPow a b = between l h (info &&& ~~~continuous) := by
  have hne : Endpoint.lt (Exact.rational h) (Exact.rational l) = false := by
    simpa using hlh
  rw [intPow_of_neg shared single hzero hhull]
  by_cases heq : l = h
  · left
    simp [between, heq]
  · right
    simp [between, hne, heq]

/-- The numbers whose hull is a power with a negative exponent. -/
def truncated (l h : ℚ) (isEven : Bool) : List ℚ :=
  (if l ≤ 1 ∧ 1 ≤ h then [1] else []) ++
  (if l ≤ -1 ∧ -1 ≤ h then [if isEven then 1 else -1] else []) ++
  (if (l ≤ 0 ∧ 0 ≤ h) ∨ l ≤ -2 ∨ 2 ≤ h then [0] else [])

theorem truncatedPowers_between (isEven : Bool) :
    truncatedPowers (between l h i) isEven = (truncated l h isEven).map Exact.rational := by
  cases isEven <;>
    simp [truncatedPowers, truncated, between, apply_ite (List.map Exact.rational), or_assoc]

/-- Of every integer in the range the power is among them. -/
theorem wholePower_mem_truncated {m n : Int} (hx : l ≤ m ∧ m ≤ h) (hn : n < 0) :
    (wholePower m n : ℚ) ∈ truncated l h (n % 2 = 0) := by
  rw [wholePower_of_neg hn]
  have hcases : m = 1 ∨ m = -1 ∨ (m ≠ 1 ∧ m ≠ -1 ∧ (m = 0 ∨ m ≤ -2 ∨ 2 ≤ m)) := by omega
  rcases hcases with rfl | rfl | ⟨hone, hminus, hrest⟩
  · have hends : l ≤ 1 ∧ 1 ≤ h := by simpa using hx
    simp [truncated, hends]
  · have hends : l ≤ -1 ∧ -1 ≤ h := by simpa using hx
    by_cases heven : n % 2 = 0 <;> simp [truncated, hends, heven]
  · have hends : (l ≤ 0 ∧ 0 ≤ h) ∨ l ≤ -2 ∨ 2 ≤ h := by
      rcases hrest with rfl | hm | hm
      · exact .inl (by simpa using hx)
      · exact .inr (.inl (hx.1.trans (by exact_mod_cast hm)))
      · exact .inr (.inr (le_trans (by exact_mod_cast hm) hx.2))
    simp [truncated, hone, hminus, hends]

/-- A power with an exponent that is too great is not known to be anything. -/
theorem intPow_great {n : Int} (shared : Within somewhere (i &&& j)) (hy : l' ≤ n ∧ n ≤ h')
    (great : Interval.greatestExponent < n) :
    intPow (between l h i) (between l' h' j) = everything := by
  have hcommon : common (between l h i) (between l' h' j) = some (i &&& j) := common_between shared
  cases hsingle : single? (between l' h' j) with
  | none => exact intPow_of_many hcommon hsingle
  | some k =>
    obtain ⟨rfl, rfl⟩ := eq_of_single? hsingle
    obtain rfl : n = k := by exact_mod_cast le_antisymm hy.2 hy.1
    have hzero : Endpoint.le (ofInt 0) (between n n j).lo = true := by
      have : 0 ≤ n := by omega
      simpa [between] using this
    rw [intPow_of_nonneg hcommon hsingle hzero, pow_of_great hcommon hsingle (by omega)]

/-- The power of integers, whatever the exponents. -/
theorem intPow_encloses {m n : Int} (shared : Within somewhere (i &&& j)) (hx : l ≤ m ∧ m ≤ h)
    (hy : l' ≤ n ∧ n ≤ h') :
    (intPow (between l h i) (between l' h' j)).contains (.rational (wholePower m n)) = true := by
  have hcommon : common (between l h i) (between l' h' j) = some (i &&& j) := common_between shared
  have hi : i ≠ 0 := ne_zero_of_somewhere (shared.trans (and_within_left i j))
  rcases lt_or_ge (Interval.greatestExponent : Int) n with great | small
  · rw [intPow_great shared hy great]
    exact everything_encloses _
  cases hsingle : single? (between l' h' j) with
  | none =>
    rw [intPow_of_many hcommon hsingle]
    exact everything_encloses _
  | some k =>
    obtain ⟨rfl, rfl⟩ := eq_of_single? hsingle
    obtain rfl : n = k := by exact_mod_cast le_antisymm hy.2 hy.1
    rcases le_or_gt 0 n with hzero | hzero
    · have hle : Endpoint.le (ofInt 0) (between n n j).lo = true := by simpa [between] using hzero
      have hpower : powInt (between l h i) (Int32.ofInt n) = powNat (between l h i) n.toNat :=
        powInt_of_nonneg hzero small
      have hinfo : (powNat (between l h i) n.toNat).info = i :=
        info_powNat (isDefined_between hi) _
      have hdefined : (powNat (between l h i) n.toNat).isDefined = true := by
        rw [isDefined_eq_true, hinfo]
        exact hi
      rw [intPow_of_nonneg hcommon hsingle hle,
        pow_of_single hcommon hsingle (by omega) (hpower ▸ hdefined), hpower, hinfo, wholePower,
        if_pos hzero, Int.cast_pow]
      refine contains_of_info (ne_zero_of_somewhere ?_) (powNat_encloses hi hx n.toNat)
      exact (shared.trans (and_within_left i j)).and shared
    · have hle : Endpoint.le (ofInt 0) (between n n j).lo = false := by simpa [between] using hzero
      have hmem : (wholePower m n : ℚ) ∈ truncated l h (n % 2 = 0) :=
        wholePower_mem_truncated hx hzero
      cases htruncated : truncated l h (n % 2 = 0) with
      | nil =>
        rw [htruncated] at hmem
        exact absurd hmem List.not_mem_nil
      | cons q qs =>
        rw [htruncated] at hmem
        have hlow := foldl_min_le q qs _ hmem
        have hhigh := le_foldl_max q qs _ hmem
        have hhull : hull (truncatedPowers (between l h i) (n % 2 = 0)) (i &&& j) =
            between (qs.foldl min q) (qs.foldl max q) (i &&& j) := by
          rw [truncatedPowers_between, htruncated, hull_eq]
        have hleft : Within somewhere (i &&& j &&& ~~~continuous) := shared.and (by decide)
        rcases intPow_of_neg_between hcommon hsingle hle hhull (hlow.trans hhigh) with heq | heq <;>
          rw [heq]
        · exact contains_between.2 ⟨ne_zero_of_somewhere shared, hlow, hhigh⟩
        · exact contains_between.2 ⟨ne_zero_of_somewhere hleft, hlow, hhigh⟩

/-! ### Powers of single integers -/

theorem powNat_single (hi : i ≠ 0) (k : Nat) :
    powNat (between x x i) k = between (x ^ k) (x ^ k) i := by
  rw [powNat_between hi]
  split_ifs with hk hmonotonic hneg
  · rw [hk, pow_zero]
  · rfl
  · rfl
  · exact absurd (le_of_not_ge fun hpos => hmonotonic (.inr hpos)) hneg

theorem truncated_single {m n : Int} (hn : n < 0) :
    truncated m m (n % 2 = 0) = [(wholePower m n : ℚ)] := by
  have hends : ∀ k : Int, ((m : ℚ) ≤ k ∧ (k : ℚ) ≤ m) ↔ m = k := by
    intro k
    rw [Int.cast_le, Int.cast_le, le_antisymm_iff]
  have hfar : ((m : ℚ) ≤ -2 ↔ m ≤ -2) ∧ ((2 : ℚ) ≤ m ↔ 2 ≤ m) :=
    ⟨by exact_mod_cast Iff.rfl, by exact_mod_cast Iff.rfl⟩
  have hone : ((m : ℚ) ≤ 1 ∧ 1 ≤ (m : ℚ)) ↔ m = 1 := by exact_mod_cast hends 1
  have hminus : ((m : ℚ) ≤ -1 ∧ -1 ≤ (m : ℚ)) ↔ m = -1 := by exact_mod_cast hends (-1)
  have hzero : ((m : ℚ) ≤ 0 ∧ 0 ≤ (m : ℚ)) ↔ m = 0 := by exact_mod_cast hends 0
  have hcases : m = 1 ∨ m = -1 ∨ (m ≠ 1 ∧ m ≠ -1 ∧ (m = 0 ∨ m ≤ -2 ∨ 2 ≤ m)) := by omega
  simp only [truncated, hone, hminus, hzero, hfar, wholePower_of_neg hn]
  rcases hcases with rfl | rfl | ⟨hne, hne', hrest⟩
  · simp
  · by_cases heven : n % 2 = 0 <;> simp [heven]
  · simp [hne, hne', hrest]

/-- The power of one integer with one exponent that is not too great is one integer. -/
theorem intPow_single {m n : Int} (shared : Within somewhere (i &&& j))
    (hn : n ≤ Interval.greatestExponent) : ∃ info,
      intPow (between m m i) (between n n j) = between (wholePower m n) (wholePower m n) info := by
  have hcommon : common (between m m i) (between n n j) = some (i &&& j) := common_between shared
  have hi : i ≠ 0 := ne_zero_of_somewhere (shared.trans (and_within_left i j))
  have hsingle := @single?_between j n
  rcases le_or_gt 0 n with hzero | hzero
  · have hle : Endpoint.le (ofInt 0) (between n n j).lo = true := by simpa [between] using hzero
    have hpower : powInt (between m m i) (Int32.ofInt n) =
        between ((m : ℚ) ^ n.toNat) ((m : ℚ) ^ n.toNat) i := by
      rw [powInt_of_nonneg hzero hn, powNat_single hi]
    have hdefined : (powInt (between m m i) (Int32.ofInt n)).isDefined = true := by
      rw [hpower]
      exact isDefined_between hi
    refine ⟨i &&& (i &&& j), ?_⟩
    rw [intPow_of_nonneg hcommon hsingle hle, pow_of_single hcommon hsingle (by omega) hdefined,
      hpower, wholePower, if_pos hzero, Int.cast_pow]
    rfl
  · have hle : Endpoint.le (ofInt 0) (between n n j).lo = false := by simpa [between] using hzero
    have hhull : hull (truncatedPowers (between m m i) (n % 2 = 0)) (i &&& j) =
        between (wholePower m n) (wholePower m n) (i &&& j) := by
      rw [truncatedPowers_between, truncated_single hzero, hull_eq]
      rfl
    rcases intPow_of_neg_between hcommon hsingle hle hhull le_rfl with heq | heq <;> exact ⟨_, heq⟩

end Formula.Interval
