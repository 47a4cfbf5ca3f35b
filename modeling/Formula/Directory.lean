/-!
Entries kept by name, in the byte order of their names. A name has at most one entry; the entry
read under a name is the last one written under it.
-/

namespace Formula

/-- Entries by name, listed in strictly increasing order of their names. -/
structure Directory (α : Type) where
  entries : List (String × α)
  sorted : entries.Pairwise (fun a b => a.1 < b.1)

namespace Directory

variable {α β : Type}

/-- The directory without entries. -/
def empty : Directory α := ⟨[], .nil⟩

instance : Inhabited (Directory α) := ⟨empty⟩

instance : EmptyCollection (Directory α) := ⟨empty⟩

/-- Writes an entry into a sorted list, over the one of the same name if there is one. -/
def place (name : String) (x : α) : List (String × α) → List (String × α)
  | [] => [(name, x)]
  | e :: es =>
    if name < e.1 then (name, x) :: e :: es
    else if name = e.1 then (name, x) :: es
    else e :: place name x es

theorem mem_place {name : String} {x : α} {es : List (String × α)} {e : String × α}
    (h : e ∈ place name x es) : e = (name, x) ∨ e ∈ es := by
  induction es with
  | nil => simpa [place] using h
  | cons d ds ih =>
    rw [place] at h
    split at h
    · simpa using h
    · split at h
      · rcases List.mem_cons.1 h with h | h
        · exact .inl h
        · exact .inr (List.mem_cons_of_mem _ h)
      · rcases List.mem_cons.1 h with h | h
        · exact .inr (h ▸ List.mem_cons_self)
        · exact (ih h).imp id (List.mem_cons_of_mem _)

theorem sorted_place (name : String) (x : α) {es : List (String × α)}
    (h : es.Pairwise (fun a b => a.1 < b.1)) :
    (place name x es).Pairwise (fun a b => a.1 < b.1) := by
  induction es with
  | nil => simp [place]
  | cons d ds ih =>
    obtain ⟨hd, hs⟩ := List.pairwise_cons.1 h
    rw [place]
    split
    · rename_i lt
      refine List.pairwise_cons.2 ⟨fun e he => ?_, h⟩
      rcases List.mem_cons.1 he with rfl | he
      · exact lt
      · exact String.lt_trans lt (hd e he)
    · split
      · rename_i eq
        exact List.pairwise_cons.2 ⟨fun e he => eq ▸ hd e he, hs⟩
      · rename_i nlt ne
        refine List.pairwise_cons.2 ⟨fun e he => ?_, ih hs⟩
        rcases mem_place he with rfl | he
        · rcases Decidable.em (d.1 < name) with h | h
          · exact h
          · exact absurd (String.le_antisymm (String.not_lt.1 h) (String.not_lt.1 nlt)) ne
        · exact hd e he

/-- Writes the entry `name`. -/
def insert (d : Directory α) (name : String) (x : α) : Directory α :=
  ⟨place name x d.entries, sorted_place name x d.sorted⟩

/-- The entry `name`. -/
def get? (d : Directory α) (name : String) : Option α :=
  d.entries.lookup name

/-- Whether there is an entry `name`. -/
def contains (d : Directory α) (name : String) : Bool :=
  (d.get? name).isSome

/-- The names, in order. -/
def names (d : Directory α) : List String :=
  d.entries.map (·.1)

/-- The entries without their names, in order of the names. -/
def values (d : Directory α) : List α :=
  d.entries.map (·.2)

/-- How many entries there are. -/
def size (d : Directory α) : Nat :=
  d.entries.length

/-- Whether there are no entries. -/
def isEmpty (d : Directory α) : Bool :=
  d.entries.isEmpty

/-- Writes the entries of a list in turn, so that the last one under a name stays. -/
def ofList (entries : List (String × α)) : Directory α :=
  entries.foldl (fun d e => d.insert e.1 e.2) empty

@[simp] theorem get?_empty (name : String) : (empty : Directory α).get? name = none := rfl

theorem lookup_cons_ite (name : String) (e : String × α) (es : List (String × α)) :
    (e :: es).lookup name = if name = e.1 then some e.2 else es.lookup name := by
  obtain ⟨key, y⟩ := e
  by_cases h : name = key
  · subst h
    simp
  · have hb : (name == key) = false := beq_false_of_ne h
    simp [List.lookup_cons, hb, h]

theorem lookup_place (name other : String) (x : α) (es : List (String × α)) :
    (place name x es).lookup other = if other = name then some x else es.lookup other := by
  induction es with
  | nil => simp [place, lookup_cons_ite]
  | cons d ds ih =>
    rw [place]
    split
    · rw [lookup_cons_ite]
    · split
      · rename_i eq
        simp only [lookup_cons_ite, ← eq]
        split <;> rfl
      · rename_i ne
        simp only [lookup_cons_ite, ih]
        by_cases h : other = name
        · simp [h, ne]
        · simp [h]

@[simp] theorem get?_insert (d : Directory α) (name other : String) (x : α) :
    (d.insert name x).get? other = if other = name then some x else d.get? other :=
  lookup_place name other x d.entries

theorem mem_entries_of_get? {d : Directory α} {name : String} {x : α}
    (h : d.get? name = some x) : (name, x) ∈ d.entries := by
  obtain ⟨before, after, hentries, -⟩ := List.lookup_eq_some_iff.1 h
  rw [hentries]
  simp

theorem mem_values_of_get? {d : Directory α} {name : String} {x : α}
    (h : d.get? name = some x) : x ∈ d.values :=
  List.mem_map_of_mem (f := Prod.snd) (mem_entries_of_get? h)

theorem lookup_of_mem {es : List (String × α)} (sorted : es.Pairwise (fun a b => a.1 < b.1))
    {e : String × α} (h : e ∈ es) : es.lookup e.1 = some e.2 := by
  induction es with
  | nil => cases h
  | cons d ds ih =>
    obtain ⟨hd, hs⟩ := List.pairwise_cons.1 sorted
    rw [lookup_cons_ite]
    rcases List.mem_cons.1 h with rfl | h
    · exact if_pos rfl
    · -- no other entry has the name of the first
      have hne : e.1 ≠ d.1 := fun heq => String.lt_irrefl _ (heq ▸ hd e h)
      rw [if_neg hne]
      exact ih hs h

theorem get?_of_mem_entries {d : Directory α} {e : String × α} (h : e ∈ d.entries) :
    d.get? e.1 = some e.2 :=
  lookup_of_mem d.sorted h

theorem get?_insert_eq_some {d : Directory α} {name other : String} {x y : α}
    (h : (d.insert name x).get? other = some y) :
    (other = name ∧ y = x) ∨ d.get? other = some y := by
  rw [get?_insert] at h
  by_cases hname : other = name
  · rw [if_pos hname] at h
    exact .inl ⟨hname, (Option.some.inj h).symm⟩
  · rw [if_neg hname] at h
    exact .inr h

end Directory

end Formula
