import Formula.Proofs.Text.Distance
import Mathlib.Tactic.SplitIfs
/-!
Which of several names a mistyped one is taken for. The search keeps the first of those that are
nearest. Over names in the order of their bytes, the hint for a name that is not among them does not
tell more of them than which they are: it is the least name at distance one, or all names in order,
or nothing.
-/

namespace Formula.Text

/-! ### The order of bytes -/

/-- The bytes of a text in UTF-8. -/
def bytes (s : String) : List UInt8 :=
  s.toList.flatMap String.utf8EncodeChar

/-- What follows does not matter where characters differ: neither begins with the bytes of the
other. -/
theorem utf8EncodeChar_append_lt {c d : Char} (h : c < d) (x y : List UInt8) :
    String.utf8EncodeChar c ++ x < String.utf8EncodeChar d ++ y := by
  have hlt : c.val.toNat < d.val.toNat := h
  have hmax : d.val.toNat < 0x110000 := by
    have hvalid := d.valid
    unfold UInt32.isValidChar Nat.isValidChar at hvalid
    omega
  have h12 : ∀ n : Nat, n / 4096 = n / 64 / 64 := fun n => (Nat.div_div_eq_div_mul n 64 64).symm
  have h18 : ∀ n : Nat, n / 262144 = n / 64 / 64 / 64 := fun n => by
    rw [Nat.div_div_eq_div_mul, Nat.div_div_eq_div_mul]
  simp only [String.utf8EncodeChar, h12, h18]
  generalize c.val.toNat = m at hlt
  generalize d.val.toNat = n at hlt hmax
  -- one to four bytes each; of as many bytes, those are digits to the base 64
  split_ifs <;>
    simp (disch := omega) only [List.cons_append, List.nil_append, List.cons_lt_cons_iff,
      UInt8.lt_iff_toNat_lt, ← UInt8.toNat_inj, UInt8.toNat_ofNat', Nat.reducePow,
      Nat.mod_eq_of_lt] <;>
    omega

theorem bytes_lt_of_lt {s t : String} (h : s < t) : bytes s < bytes t := by
  have hchars : s.toList < t.toList := h
  unfold bytes
  generalize s.toList = cs at hchars
  generalize t.toList = ds at hchars
  induction hchars with
  | @nil d ds =>
    rw [List.flatMap_nil, List.flatMap_cons]
    cases hd : String.utf8EncodeChar d with
    | nil => exact absurd hd String.utf8EncodeChar_ne_nil
    | cons b bs => exact List.nil_lt_cons _ _
  | rel hlt =>
    rw [List.flatMap_cons, List.flatMap_cons]
    exact utf8EncodeChar_append_lt hlt _ _
  | cons _ ih =>
    rw [List.flatMap_cons, List.flatMap_cons]
    exact List.append_left_lt ih

/-- Texts are in the order of their bytes. -/
theorem lt_iff_bytes_lt {s t : String} : s < t ↔ bytes s < bytes t := by
  refine ⟨bytes_lt_of_lt, fun h => Decidable.byContradiction fun hnot => ?_⟩
  rcases Decidable.em (t < s) with hlt | hge
  · exact List.lt_asymm h (bytes_lt_of_lt hlt)
  · obtain rfl := String.le_antisymm (String.not_lt.1 hge) (String.not_lt.1 hnot)
    exact List.lt_irrefl _ h

theorem le_iff_bytes_le {s t : String} : s ≤ t ↔ bytes s ≤ bytes t := by
  rw [← String.not_lt, lt_iff_bytes_lt, List.not_lt]

/-! ### Distances -/

theorem distance_eq_zero {s t : String} (h : distance s t = 0) : s = t := by
  rw [distance, distanceOf_eq] at h
  obtain ⟨a, ha⟩ := exists_cost_eq_entry s.toList.reverse t.toList.reverse
  obtain ⟨script, hlength, hrun⟩ := a.exists_run
  rw [ha, h, List.length_eq_zero_iff] at hlength
  subst hlength
  exact String.toList_inj.1 (List.reverse_inj.1 (Option.some.inj hrun))

/-! ### The nearest name -/

/-- The candidate in place `i` is the first of those that are nearest to the name. -/
structure Foremost (name : String) (candidates : List String) (i : Nat) (c : String) : Prop where
  at_place : candidates[i]? = some c
  nearest : ∀ d ∈ candidates, distance name c ≤ distance name d
  first : ∀ j d, j < i → candidates[j]? = some d → distance name c < distance name d

section Nearest

variable {name c d : String} {candidates : List String} {bound i j : Nat}

theorem Foremost.mem (h : Foremost name candidates i c) : c ∈ candidates :=
  List.mem_of_getElem? h.at_place

theorem Foremost.lt_length (h : Foremost name candidates i c) : i < candidates.length :=
  (List.getElem?_eq_some_iff.1 h.at_place).1

theorem Foremost.unique (h : Foremost name candidates i c) (h' : Foremost name candidates j d) :
    c = d := by
  have hcd := h.nearest d h'.mem
  have hdc := h'.nearest c h.mem
  rcases Nat.lt_trichotomy i j with hlt | rfl | hlt
  · exact absurd (h'.first i c hlt h.at_place) (Nat.not_lt.2 hcd)
  · exact Option.some.inj (h.at_place.symm.trans h'.at_place)
  · exact absurd (h.first j d hlt h'.at_place) (Nat.not_lt.2 hdc)

/-- One more candidate that is no nearer changes nothing. -/
theorem Foremost.append (h : Foremost name candidates i c)
    (hd : distance name c ≤ distance name d) :
    Foremost name (candidates ++ [d]) i c where
  at_place := List.getElem?_append_left h.lt_length ▸ h.at_place
  nearest := by
    intro x hx
    rcases List.mem_append.1 hx with hx | hx
    · exact h.nearest x hx
    · exact List.mem_singleton.1 hx ▸ hd
  first := by
    intro k x hk hx
    rw [List.getElem?_append_left (Nat.lt_trans hk h.lt_length)] at hx
    exact h.first k x hk hx

/-- One more candidate that is nearer than all others is the foremost. -/
theorem foremost_last (h : ∀ x ∈ candidates, distance name d < distance name x) :
    Foremost name (candidates ++ [d]) candidates.length d where
  at_place := List.getElem?_concat_length
  nearest := by
    intro x hx
    rcases List.mem_append.1 hx with hx | hx
    · exact Nat.le_of_lt (h x hx)
    · exact List.mem_singleton.1 hx ▸ Nat.le_refl _
  first := by
    intro k x hk hx
    rw [List.getElem?_append_left hk] at hx
    exact h x (List.mem_of_getElem? hx)

/-- What a search has found when it has seen some candidates. -/
inductive Found (name : String) (bound : Nat) (candidates : List String) :
    Option (String × Nat) → Prop
  | nothing (far : ∀ d ∈ candidates, bound ≤ distance name d) : Found name bound candidates none
  | nearest {i : Nat} {c : String} (foremost : Foremost name candidates i c)
      (near : distance name c < bound) :
      Found name bound candidates (some (c, distance name c))

theorem Found.nearer {best : Option (String × Nat)} (h : Found name bound candidates best)
    (d : String) : Found name bound (candidates ++ [d]) (nearer name bound best d) := by
  cases h with
  | nothing far =>
    simp only [Text.nearer]
    by_cases hnear : distance name d < bound
    · rw [if_pos hnear]
      exact .nearest (foremost_last fun x hx => Nat.lt_of_lt_of_le hnear (far x hx)) hnear
    · rw [if_neg hnear]
      refine .nothing fun x hx => ?_
      rcases List.mem_append.1 hx with hx | hx
      · exact far x hx
      · exact List.mem_singleton.1 hx ▸ Nat.not_lt.1 hnear
  | @nearest i c foremost near =>
    simp only [Text.nearer]
    by_cases hnear : distance name d < bound
    · rw [if_pos hnear]
      by_cases hnearer : distance name d < distance name c
      · rw [if_pos hnearer]
        refine .nearest (foremost_last fun x hx => ?_) hnear
        exact Nat.lt_of_lt_of_le hnearer (foremost.nearest x hx)
      · rw [if_neg hnearer]
        exact .nearest (foremost.append (Nat.not_lt.1 hnearer)) near
    · rw [if_neg hnear]
      refine .nearest (foremost.append ?_) near
      exact Nat.le_trans (Nat.le_of_lt near) (Nat.not_lt.1 hnear)

theorem found_foldl (name : String) (bound : Nat) (candidates : List String) :
    Found name bound candidates (candidates.foldl (nearer name bound) none) := by
  induction candidates using List.reverseRecOn with
  | nil => exact .nothing fun d hd => absurd hd List.not_mem_nil
  | append_singleton candidates d ih =>
    rw [List.foldl_append]
    exact ih.nearer d

theorem nearest?_eq_none :
    nearest? name candidates bound = none ↔ ∀ d ∈ candidates, bound ≤ distance name d := by
  have hfound := found_foldl name bound candidates
  rw [nearest?, Option.map_eq_none_iff]
  generalize candidates.foldl (nearer name bound) none = best at hfound
  cases hfound with
  | nothing far => exact ⟨fun _ => far, fun _ => rfl⟩
  | nearest foremost near =>
    refine ⟨fun h => (nomatch h), fun hfar => ?_⟩
    exact absurd near (Nat.not_lt.2 (hfar _ foremost.mem))

theorem nearest?_eq_some : nearest? name candidates bound = some c ↔
    (∃ i, Foremost name candidates i c) ∧ distance name c < bound := by
  have hfound := found_foldl name bound candidates
  rw [nearest?]
  generalize candidates.foldl (nearer name bound) none = best at hfound
  cases hfound with
  | nothing far =>
    constructor
    · exact fun h => nomatch h
    · rintro ⟨⟨i, hi⟩, hnear⟩
      exact absurd hnear (Nat.not_lt.2 (far c hi.mem))
  | @nearest i x foremost near =>
    constructor
    · intro h
      obtain rfl : x = c := Option.some.inj h
      exact ⟨⟨i, foremost⟩, near⟩
    · rintro ⟨⟨j, hj⟩, -⟩
      exact congrArg some (foremost.unique hj)

end Nearest

/-! ### Hints -/

/-- The hint for a name, where just the names with `valid` are valid. -/
inductive Hint (name : String) (valid : String → Prop) : Option String → Prop
  | near {c : String} (isValid : valid c) (isNear : distance name c = 1)
      (least : ∀ d, valid d → distance name d = 1 → bytes c ≤ bytes d) :
      Hint name valid (some ("did you mean `" ++ c ++ "`?"))
  | all {names : List String} (far : ∀ d, valid d → distance name d ≠ 1)
      (legible : ∃ d, valid d ∧ d ≠ "") (mem_iff : ∀ d, d ∈ names ↔ valid d)
      (sorted : names.Pairwise fun d e => bytes d < bytes e) :
      Hint name valid (some ("valid names are " ++ ", ".intercalate names))
  | absent (far : ∀ d, valid d → distance name d ≠ 1) (illegible : ∀ d, valid d → d = "") :
      Hint name valid none

section Hint

variable {name : String} {valid : String → Prop} {names names' : List String}
  {hint hint' : Option String}

theorem eq_of_sorted (h : names.Pairwise fun d e => bytes d < bytes e)
    (h' : names'.Pairwise fun d e => bytes d < bytes e) (hmem : ∀ d, d ∈ names ↔ d ∈ names') :
    names = names' := by
  have hdistinct : ∀ {d e : String}, bytes d < bytes e → d ≠ e := by
    rintro d _ hlt rfl
    exact List.lt_irrefl _ hlt
  have hperm := (List.perm_ext_iff_of_nodup (h.imp hdistinct) (h'.imp hdistinct)).2 hmem
  exact hperm.eq_of_pairwise (fun _ _ _ _ hde hed => absurd hed (List.lt_asymm hde)) h h'

/-- The valid names determine the hint. -/
theorem Hint.unique (h : Hint name valid hint) (h' : Hint name valid hint') : hint = hint' := by
  cases h with
  | near isValid isNear least =>
    cases h' with
    | @near c' isValid' isNear' least' =>
      have hle := least c' isValid' isNear'
      have hge := least' _ isValid isNear
      rw [String.le_antisymm (le_iff_bytes_le.2 hle) (le_iff_bytes_le.2 hge)]
    | all far => exact absurd isNear (far _ isValid)
    | absent far => exact absurd isNear (far _ isValid)
  | all far legible mem_iff sorted =>
    cases h' with
    | near isValid isNear => exact absurd isNear (far _ isValid)
    | all _ _ mem_iff' sorted' =>
      rw [eq_of_sorted sorted sorted' fun d => (mem_iff d).trans (mem_iff' d).symm]
    | absent _ illegible =>
      obtain ⟨d, hd, hne⟩ := legible
      exact absurd (illegible d hd) hne
  | absent far illegible =>
    cases h' with
    | near isValid isNear => exact absurd isNear (far _ isValid)
    | all _ legible =>
      obtain ⟨d, hd, hne⟩ := legible
      exact absurd (illegible d hd) hne
    | absent => rfl

theorem intercalate_eq_empty (h : names.Pairwise (· < ·)) :
    ", ".intercalate names = "" ↔ ∀ d ∈ names, d = "" := by
  cases names with
  | nil => simp
  | cons d names =>
    cases names with
    | nil => simp
    | cons e names =>
      -- of two names one is not empty, and there is a comma
      have hlt : d < e := List.rel_of_pairwise_cons h List.mem_cons_self
      refine iff_of_false (by simp) fun hempty => String.lt_irrefl "" ?_
      have hd := hempty d List.mem_cons_self
      have he := hempty e (List.mem_cons_of_mem _ List.mem_cons_self)
      rwa [hd, he] at hlt

theorem place_lt_of_lt {i j : Nat} {c d : String} (sorted : names.Pairwise (· < ·))
    (hc : names[i]? = some c) (hd : names[j]? = some d) (h : c < d) : i < j := by
  obtain ⟨hi, rfl⟩ := List.getElem?_eq_some_iff.1 hc
  obtain ⟨hj, rfl⟩ := List.getElem?_eq_some_iff.1 hd
  rcases Nat.lt_trichotomy i j with hij | rfl | hji
  · exact hij
  · exact absurd h (String.lt_irrefl _)
  · exact absurd h (String.lt_asymm (List.pairwise_iff_getElem.1 sorted j i hj hi hji))

/-- Over the valid names in order, the hint is that for the set of them. -/
theorem hint_suggestion? (sorted : names.Pairwise (· < ·)) (hname : name ∉ names) :
    Hint name (· ∈ names) (suggestion? name names) := by
  have hpositive : ∀ d ∈ names, distance name d ≠ 0 := fun d hd hzero =>
    hname (distance_eq_zero hzero ▸ hd)
  have hsorted : names.Pairwise fun d e => bytes d < bytes e :=
    sorted.imp lt_iff_bytes_lt.1
  unfold suggestion?
  cases hnearest : nearest? name names typoBound with
  | some c =>
    obtain ⟨⟨i, hc⟩, hnear⟩ := nearest?_eq_some.1 hnearest
    have hone : distance name c = 1 := by
      have := hpositive c hc.mem
      unfold typoBound at hnear
      omega
    refine .near hc.mem hone fun d hd hdone => ?_
    refine le_iff_bytes_le.1 (String.not_lt.1 fun hlt => ?_)
    obtain ⟨j, hj⟩ := List.mem_iff_getElem?.1 hd
    have hji : j < i := place_lt_of_lt sorted hj hc.at_place hlt
    have hcd := hc.first j d hji hj
    omega
  | none =>
    have hfar := nearest?_eq_none.1 hnearest
    have hone : ∀ d ∈ names, distance name d ≠ 1 := fun d hd hd1 => by
      have := hfar d hd
      unfold typoBound at this
      omega
    dsimp only
    split
    · rename_i hempty
      exact .absent hone ((intercalate_eq_empty sorted).1 (by simpa using hempty))
    · rename_i hnonempty
      refine .all hone ?_ (fun _ => Iff.rfl) hsorted
      simpa [intercalate_eq_empty sorted] using hnonempty

end Hint

end Formula.Text
