import Mathlib.Data.List.Basic
/-!
Edit scripts, and alignments of two texts. A script changes a text a character at a time, at any
places and in any order. An alignment puts two texts side by side, so that each character is dealt
with once, from left to right. Whatever a script does, an alignment does with no more changes.
-/

namespace Formula.Text

/-! ### Scripts -/

/-- A change of one character: put in at a position, taken out or replaced there. -/
inductive Edit where
  | insert (position : Nat) (c : Char)
  | delete (position : Nat)
  | replace (position : Nat) (c : Char)
  deriving DecidableEq, Repr

namespace Edit

/-- What an edit makes of a text, if the text has the position. -/
def apply : Edit → List Char → Option (List Char)
  | insert i c, s => if i ≤ s.length then some (s.take i ++ c :: s.drop i) else none
  | delete i, s => if i < s.length then some (s.take i ++ s.drop (i + 1)) else none
  | replace i c, s => if i < s.length then some (s.take i ++ c :: s.drop (i + 1)) else none

/-- What a script makes of a text, one edit after the other. -/
def run (script : List Edit) (s : List Char) : Option (List Char) :=
  script.foldlM (fun s e => e.apply s) s

variable {s t : List Char} {e : Edit} {script : List Edit}

theorem run_cons : run (e :: script) s = (e.apply s).bind (run script) := rfl

/-- What is in one place of a text is exchanged: a character for another, for nothing, or nothing
for a character. -/
def Changes (s t : List Char) : Prop :=
  ∃ (before after : List Char) (old new : Option Char),
    s = before ++ old.toList ++ after ∧ t = before ++ new.toList ++ after

theorem changes_of_apply (h : e.apply s = some t) : Changes s t := by
  have hsplit : ∀ {i : Nat} (hi : i < s.length), s = s.take i ++ [s[i]] ++ s.drop (i + 1) := by
    intro i hi
    simp
  cases e with
  | insert i c =>
    obtain ⟨-, ht⟩ := Option.ite_none_right_eq_some.1 h
    refine ⟨s.take i, s.drop i, none, some c, by simp, ?_⟩
    simpa using (Option.some.inj ht).symm
  | delete i =>
    obtain ⟨hi, ht⟩ := Option.ite_none_right_eq_some.1 h
    refine ⟨s.take i, s.drop (i + 1), some s[i], none, hsplit hi, ?_⟩
    simpa using (Option.some.inj ht).symm
  | replace i c =>
    obtain ⟨hi, ht⟩ := Option.ite_none_right_eq_some.1 h
    refine ⟨s.take i, s.drop (i + 1), some s[i], some c, hsplit hi, ?_⟩
    simpa using (Option.some.inj ht).symm

theorem exists_apply {old new : Option Char} (hne : old ≠ new) (before after : List Char) :
    ∃ e : Edit, e.apply (before ++ old.toList ++ after) =
      some (before ++ new.toList ++ after) := by
  rcases old with _ | c <;> rcases new with _ | d
  · exact absurd rfl hne
  · exact ⟨insert before.length d, by simp [apply]⟩
  · exact ⟨delete before.length, by simp [apply]⟩
  · exact ⟨replace before.length d, by simp [apply]⟩

end Edit

/-! ### Alignments -/

/-- Two texts side by side, in columns of what stands in one place of each. -/
structure Alignment (s t : List Char) where
  columns : List (Option Char × Option Char)
  source_eq : columns.filterMap Prod.fst = s
  target_eq : columns.filterMap Prod.snd = t

namespace Alignment

variable {s t u : List Char}

/-- How many columns of some do not hold the same twice. -/
def changes (columns : List (Option Char × Option Char)) : Nat :=
  columns.countP fun x => x.1 != x.2

theorem changes_cons (x : Option Char × Option Char) (columns : List (Option Char × Option Char)) :
    changes (x :: columns) = changes columns + if x.1 = x.2 then 0 else 1 := by
  by_cases h : x.1 = x.2 <;> simp [changes, h]

/-- How many changes an alignment makes. -/
def cost (a : Alignment s t) : Nat :=
  changes a.columns

/-- A text beside itself. -/
def refl (s : List Char) : Alignment s s where
  columns := s.map fun c => (some c, some c)
  source_eq := by simp [List.filterMap_map]
  target_eq := by simp [List.filterMap_map]

theorem cost_refl (s : List Char) : (refl s).cost = 0 := by
  simp [cost, changes, refl]

/-- One more column in front. -/
def cons (x : Option Char × Option Char) (a : Alignment s t) :
    Alignment (x.1.toList ++ s) (x.2.toList ++ t) where
  columns := x :: a.columns
  source_eq := by
    rw [List.filterMap_cons, a.source_eq]
    cases x.1 <;> rfl
  target_eq := by
    rw [List.filterMap_cons, a.target_eq]
    cases x.2 <;> rfl

theorem cost_cons (x : Option Char × Option Char) (a : Alignment s t) :
    (a.cons x).cost = a.cost + if x.1 = x.2 then 0 else 1 :=
  changes_cons x a.columns

/-- Both texts from their ends. -/
def reverse (a : Alignment s t) : Alignment s.reverse t.reverse where
  columns := a.columns.reverse
  source_eq := by rw [List.filterMap_reverse, a.source_eq]
  target_eq := by rw [List.filterMap_reverse, a.target_eq]

theorem cost_reverse (a : Alignment s t) : a.reverse.cost = a.cost :=
  List.countP_reverse

/-! ### From scripts to alignments -/

/-- A place of the second text is found among the columns: one that holds a character, or none where
there is nothing in the place. -/
theorem exists_place (a : Alignment s t) {before after : List Char} {old : Option Char}
    (ht : t = before ++ old.toList ++ after) :
    ∃ front back, ∃ x? : Option (Option Char × Option Char),
      a.columns = front ++ x?.toList ++ back ∧ front.filterMap Prod.snd = before ∧
      back.filterMap Prod.snd = after := by
  obtain ⟨left, back, hcolumns, hleft, hback⟩ :=
    List.filterMap_eq_append_iff.1 (a.target_eq.trans ht)
  cases old with
  | none => exact ⟨left, back, none, by simpa using hcolumns, by simpa using hleft, hback⟩
  | some c =>
    obtain ⟨front, middle, rfl, hfront, hmiddle⟩ := List.filterMap_eq_append_iff.1 hleft
    obtain ⟨skipped, x, rest, rfl, hskipped, -, hrest⟩ := List.filterMap_eq_cons_iff.1 hmiddle
    refine ⟨front ++ skipped, rest ++ back, some x, by simpa using hcolumns, ?_, ?_⟩
    · rw [List.filterMap_append, hfront, List.filterMap_eq_nil_iff.2 hskipped, List.append_nil]
    · rw [List.filterMap_append, hrest, hback, List.nil_append]

/-- A change of the second text needs one more column that does not hold the same twice, at most. -/
theorem exists_of_changes (a : Alignment s t) (h : Edit.Changes t u) :
    ∃ b : Alignment s u, b.cost ≤ a.cost + 1 := by
  obtain ⟨before, after, old, new, ht, rfl⟩ := h
  obtain ⟨front, back, x?, hcolumns, hfront, hback⟩ := a.exists_place ht
  refine ⟨⟨front ++ [(x?.bind Prod.fst, new)] ++ back, ?_, ?_⟩, ?_⟩
  · rw [← a.source_eq, hcolumns]
    cases x? with
    | none => simp
    | some x => cases hx : x.1 <;> simp [hx]
  · rw [← hfront, ← hback]
    cases new <;> simp
  · simp only [cost, changes, hcolumns, List.countP_append, List.countP_singleton]
    split <;> omega

/-- Each edit of a script needs one more at most. -/
theorem exists_of_run (a : Alignment s t) {script : List Edit} (h : Edit.run script t = some u) :
    ∃ b : Alignment s u, b.cost ≤ a.cost + script.length := by
  induction script generalizing t with
  | nil =>
    cases h
    exact ⟨a, Nat.le_refl _⟩
  | cons e script ih =>
    obtain ⟨t', he, hscript⟩ := Option.bind_eq_some_iff.1 (Edit.run_cons.symm.trans h)
    obtain ⟨b, hb⟩ := a.exists_of_changes (Edit.changes_of_apply he)
    obtain ⟨b', hb'⟩ := ih b hscript
    refine ⟨b', ?_⟩
    rw [List.length_cons]
    omega

/-! ### From alignments to scripts -/

/-- The columns are dealt with one after the other, behind what those before them have made. -/
theorem exists_run_behind (columns : List (Option Char × Option Char)) (done : List Char) :
    ∃ script : List Edit, script.length = changes columns ∧
      Edit.run script (done ++ columns.filterMap Prod.fst) =
        some (done ++ columns.filterMap Prod.snd) := by
  induction columns generalizing done with
  | nil => exact ⟨[], rfl, rfl⟩
  | cons x columns ih =>
    obtain ⟨script, hlength, hrun⟩ := ih (done ++ x.2.toList)
    have hsource : done ++ (x :: columns).filterMap Prod.fst =
        done ++ x.1.toList ++ columns.filterMap Prod.fst := by
      cases hx : x.1 <;> simp [hx]
    have htarget : done ++ (x :: columns).filterMap Prod.snd =
        done ++ x.2.toList ++ columns.filterMap Prod.snd := by
      cases hx : x.2 <;> simp [hx]
    rw [hsource, htarget, changes_cons]
    by_cases hsame : x.1 = x.2
    · rw [if_pos hsame]
      exact ⟨script, hlength, hsame ▸ hrun⟩
    · obtain ⟨e, he⟩ := Edit.exists_apply hsame done (columns.filterMap Prod.fst)
      refine ⟨e :: script, ?_, ?_⟩
      · rw [if_neg hsame, List.length_cons, hlength]
      · rw [Edit.run_cons, he, Option.bind_some, hrun]

/-- An alignment is a script with an edit for each of its changes. -/
theorem exists_run (a : Alignment s t) :
    ∃ script : List Edit, script.length = a.cost ∧ Edit.run script s = some t := by
  obtain ⟨script, hlength, hrun⟩ := exists_run_behind a.columns []
  rw [List.nil_append, List.nil_append, a.source_eq, a.target_eq] at hrun
  exact ⟨script, hlength, hrun⟩

end Alignment

end Formula.Text
