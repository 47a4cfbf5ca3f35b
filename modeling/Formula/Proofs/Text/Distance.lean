import Formula.Proofs.Text.Edits
import Formula.Text.Distance
import Mathlib.Data.List.Induction
/-!
The distance of two texts is the least number of edits that turn one into the other. The entry of
the table for two prefixes is the least cost of an alignment of both, read from their ends. Of the
two rows at hand one has all entries for some prefix of the source, and what is left in the other is
not read.
-/

namespace Formula.Text

/-! ### Entries of the table -/

/-- The entry for a prefix of the source that ends in `c`, where `above` has those for the prefix
without it. Prefixes of the target are read from their ends. -/
def entryAfter (c : Char) (above : List Char → Nat) : List Char → Nat
  | [] => above [] + 1
  | d :: ds => min (min (above (d :: ds) + 1) (entryAfter c above ds + 1))
      (above ds + if c = d then 0 else 1)

/-- The entry for two prefixes, both read from their ends. -/
def entry (source : List Char) : List Char → Nat :=
  source.foldr entryAfter List.length

theorem entry_nil (s : List Char) : entry s [] = s.length := by
  induction s with
  | nil => rfl
  | cons c s ih => exact congrArg (· + 1) ih

theorem entry_delete (c : Char) (s t : List Char) : entry (c :: s) t ≤ entry s t + 1 := by
  cases t with
  | nil => exact Nat.le_refl _
  | cons d t => exact Nat.le_trans (Nat.min_le_left _ _) (Nat.min_le_left _ _)

theorem entry_insert (d : Char) (s t : List Char) : entry s (d :: t) ≤ entry s t + 1 := by
  cases s with
  | nil => exact Nat.le_refl _
  | cons c s => exact Nat.le_trans (Nat.min_le_left _ _) (Nat.min_le_right _ _)

theorem entry_both (c d : Char) (s t : List Char) :
    entry (c :: s) (d :: t) ≤ entry s t + if c = d then 0 else 1 :=
  Nat.min_le_right _ _

/-- One of the three is what the entry is. -/
theorem entry_cases (c d : Char) (s t : List Char) :
    entry (c :: s) (d :: t) = entry s (d :: t) + 1 ∨
    entry (c :: s) (d :: t) = entry (c :: s) t + 1 ∨
    entry (c :: s) (d :: t) = entry s t + if c = d then 0 else 1 := by
  have hentry : entry (c :: s) (d :: t) = min (min (entry s (d :: t) + 1) (entry (c :: s) t + 1))
      (entry s t + if c = d then 0 else 1) := rfl
  generalize (if c = d then 0 else 1) = k at hentry ⊢
  omega

/-- No alignment costs less than the entry. -/
theorem entry_le_cost {s t : List Char} (a : Alignment s t) : entry s t ≤ a.cost := by
  obtain ⟨columns, rfl, rfl⟩ := a
  change _ ≤ Alignment.changes columns
  induction columns with
  | nil => exact Nat.le_refl _
  | cons x columns ih =>
    obtain ⟨old, new⟩ := x
    rw [Alignment.changes_cons]
    rcases old with _ | c <;> rcases new with _ | d
    · exact ih
    · exact Nat.le_trans (entry_insert d _ _) (Nat.add_le_add_right ih 1)
    · exact Nat.le_trans (entry_delete c _ _) (Nat.add_le_add_right ih 1)
    · simp only [Option.some.injEq]
      exact Nat.le_trans (entry_both c d _ _) (Nat.add_le_add_right ih _)

/-- The entry is the cost of an alignment. -/
theorem exists_cost_eq_entry (s t : List Char) : ∃ a : Alignment s t, a.cost = entry s t := by
  induction s generalizing t with
  | nil =>
    induction t with
    | nil => exact ⟨.refl [], Alignment.cost_refl []⟩
    | cons d t ih =>
      obtain ⟨a, ha⟩ := ih
      exact ⟨a.cons (none, some d), (a.cost_cons _).trans (by rw [ha]; rfl)⟩
  | cons c s ih =>
    induction t with
    | nil =>
      obtain ⟨a, ha⟩ := ih []
      exact ⟨a.cons (some c, none), (a.cost_cons _).trans (by rw [ha]; rfl)⟩
    | cons d t ih' =>
      rcases entry_cases c d s t with hentry | hentry | hentry
      · obtain ⟨a, ha⟩ := ih (d :: t)
        exact ⟨a.cons (some c, none), (a.cost_cons _).trans (by rw [ha, hentry]; rfl)⟩
      · obtain ⟨a, ha⟩ := ih'
        exact ⟨a.cons (none, some d), (a.cost_cons _).trans (by rw [ha, hentry]; rfl)⟩
      · obtain ⟨a, ha⟩ := ih t
        refine ⟨a.cons (some c, some d), (a.cost_cons _).trans ?_⟩
        rw [ha, hentry]
        simp only [Option.some.injEq]

/-! ### Rows of the table -/

/-- What holds before a loop over the characters of a text with their positions, and is kept from
each position to the next, holds behind it. -/
theorem foldl_zipIdx_induction {α : Type} {P : Nat → α → Prop} {f : α → Char × Nat → α} {a : α}
    (cs : List Char) (start : P 0 a)
    (step : ∀ i c a, cs[i]? = some c → P i a → P (i + 1) (f a (c, i))) :
    P cs.length (cs.zipIdx.foldl f a) := by
  induction cs using List.reverseRecOn with
  | nil => exact start
  | append_singleton cs c ih =>
    have hprefix : P cs.length (cs.zipIdx.foldl f a) := ih fun i d a hd hi => by
      refine step i d a ?_ hi
      rw [List.getElem?_append_left (List.getElem?_eq_some_iff.1 hd).1, hd]
    rw [List.zipIdx_append, List.foldl_append, List.length_append, Nat.zero_add]
    exact step cs.length c _ (by simp) hprefix

theorem getD_setIfInBounds (a : Array Nat) (i v j : Nat) :
    (a.setIfInBounds i v).getD j 0 = if i = j ∧ i < a.size then v else a.getD j 0 := by
  rw [Array.getD_eq_getD_getElem?, Array.getD_eq_getD_getElem?, Array.getElem?_setIfInBounds]
  by_cases hij : i = j
  · subst hij
    by_cases hi : i < a.size <;> simp [hi]
  · simp [hij]

/-- The first `j` characters of a text, from the last to the first. -/
def prefixAt (cs : List Char) (j : Nat) : List Char :=
  (cs.take j).reverse

theorem prefixAt_succ {cs : List Char} {j : Nat} {c : Char} (h : cs[j]? = some c) :
    prefixAt cs (j + 1) = c :: prefixAt cs j := by
  rw [prefixAt, List.take_add_one, h, List.reverse_append]
  rfl

namespace Rows

variable {target : List Char} {rows : Rows} {f : List Char → Nat} {c d : Char} {i j : Nat}

/-- The complete row has the values of `f` for all prefixes of the target. What the other row has
does not matter, but there is room for as many. -/
structure Complete (target : List Char) (f : List Char → Nat) (rows : Rows) : Prop where
  previous_eq : ∀ j ≤ target.length, rows.previous.getD j 0 = f (prefixAt target j)
  previous_size : rows.previous.size = target.length + 1
  current_size : rows.current.size = target.length + 1

/-- Beside it, the other row has the entries below those for the character `c`, up to column `j`. -/
structure Written (target : List Char) (f : List Char → Nat) (c : Char) (j : Nat) (rows : Rows) :
    Prop extends Complete target f rows where
  current_eq : ∀ k ≤ j, rows.current.getD k 0 = entryAfter c f (prefixAt target k)

theorem complete_first (target : List Char) : Complete target List.length (first target) := by
  refine ⟨fun j hj => ?_, by simp [first], by simp [first]⟩
  have hlt : j < target.length + 1 := Nat.lt_succ_of_le hj
  rw [first, Array.getD_eq_getD_getElem?, Array.getElem?_range, if_pos hlt, prefixAt,
    List.length_reverse, List.length_take_of_le hj]
  rfl

theorem Complete.started (h : Complete target f rows) (c : Char) :
    Written target f c 0 { rows with current := rows.current.setIfInBounds 0 (f [] + 1) } where
  previous_eq := h.previous_eq
  previous_size := h.previous_size
  current_size := by simp [h.current_size]
  current_eq := by
    intro k hk
    obtain rfl : k = 0 := Nat.le_zero.1 hk
    have hroom : 0 < rows.current.size := by simp [h.current_size]
    rw [getD_setIfInBounds, if_pos ⟨rfl, hroom⟩]
    rfl

theorem Written.write (h : Written target f c j rows) (hd : target[j]? = some d) :
    Written target f c (j + 1) (rows.write c (d, j)) where
  previous_eq := h.previous_eq
  previous_size := h.previous_size
  current_size := by simp [Rows.write, h.current_size]
  current_eq := by
    obtain ⟨hj, -⟩ := List.getElem?_eq_some_iff.1 hd
    have hroom : j + 1 < rows.current.size := by
      rw [h.current_size]
      omega
    intro k hk
    rw [Rows.write, getD_setIfInBounds]
    by_cases hlast : j + 1 = k
    · subst hlast
      rw [if_pos ⟨rfl, hroom⟩, h.current_eq j (Nat.le_refl _), h.previous_eq j (Nat.le_of_lt hj),
        h.previous_eq (j + 1) hj, prefixAt_succ hd]
      rfl
    · rw [if_neg fun hand => hlast hand.1]
      exact h.current_eq k (by omega)

/-- The rows change places when the one below is complete. -/
theorem Complete.next (h : Complete target f rows) (hi : f [] = i) :
    Complete target (entryAfter c f) (rows.next target (c, i)) := by
  subst hi
  have hwritten := foldl_zipIdx_induction target (h.started c) fun _ _ _ hd hr => hr.write hd
  exact ⟨hwritten.current_eq, hwritten.current_size, hwritten.previous_size⟩

/-- Row by row, the table has the entries for all prefixes of the source. -/
theorem complete_foldl (source target : List Char) :
    Complete target (entry source.reverse)
      (source.zipIdx.foldl (next target) (first target)) := by
  have hall : Complete target (entry (prefixAt source source.length))
      (source.zipIdx.foldl (next target) (first target)) := by
    refine foldl_zipIdx_induction (P := fun i => Complete target (entry (prefixAt source i)))
      source (complete_first target) fun i c rows hc hr => ?_
    rw [prefixAt_succ hc]
    refine hr.next ?_
    obtain ⟨hi, -⟩ := List.getElem?_eq_some_iff.1 hc
    rw [entry_nil, prefixAt, List.length_reverse, List.length_take_of_le (Nat.le_of_lt hi)]
  rwa [prefixAt, List.take_length] at hall

end Rows

theorem distanceOf_eq (source target : List Char) :
    distanceOf source target = entry source.reverse target.reverse := by
  rw [distanceOf, (Rows.complete_foldl source target).previous_eq _ (Nat.le_refl _), prefixAt,
    List.take_length]

/-! ### The distance -/

/-- Some script turns the source into the target with as many edits as the distance says, and none
does with fewer. -/
theorem distance_least (source target : String) :
    (∃ script : List Edit, script.length = distance source target ∧
      Edit.run script source.toList = some target.toList) ∧
    ¬∃ script : List Edit, script.length < distance source target ∧
      Edit.run script source.toList = some target.toList := by
  rw [distance, distanceOf_eq]
  constructor
  · obtain ⟨a, ha⟩ := exists_cost_eq_entry source.toList.reverse target.toList.reverse
    obtain ⟨script, hlength, hrun⟩ := a.reverse.exists_run
    rw [Alignment.cost_reverse, ha] at hlength
    rw [List.reverse_reverse, List.reverse_reverse] at hrun
    exact ⟨script, hlength, hrun⟩
  · rintro ⟨script, hless, hrun⟩
    obtain ⟨a, ha⟩ := (Alignment.refl source.toList).exists_of_run hrun
    have hentry := entry_le_cost a.reverse
    rw [Alignment.cost_reverse] at hentry
    rw [Alignment.cost_refl] at ha
    omega

example : Edit.run [.replace 0 's', .replace 4 'i', .insert 6 'g'] "kitten".toList =
    some "sitting".toList := by decide

example : distance "kitten" "sitting" = 3 := by decide +kernel

end Formula.Text
