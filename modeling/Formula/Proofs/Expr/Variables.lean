import Formula.Proofs.Expr.Typing
/-!
The variables of an expression in the order in which they are met. They are noted one after the
other, and the name alone decides whether one is new; in an expression that has a type it decides
the type as well.
-/

namespace Formula.Expr

/-! ### Occurrences -/

/-- The variables of an expression where they stand, from the left. -/
def occurrences (e : Expr) : List (String × Option MathType) :=
  (preorder 0 e).filterMap fun n => n.2.asVariable

theorem usedVariables_eq (e : Expr) : e.usedVariables = e.occurrences.foldl noteVariable [] := rfl

theorem preorderAll_eq_flatMap (depth : Nat) (es : List Expr) :
    preorderAll depth es = es.flatMap (preorder depth) := by
  induction es with
  | nil => rfl
  | cons e es ih => simp [preorderAll, ih]

theorem filterMap_preorder (depth : Nat) (e : Expr) :
    (preorder depth e).filterMap (fun n => n.2.asVariable) = occurrences e := by
  unfold occurrences
  -- both walks are compared with one from any other depth
  generalize 0 = depth'
  induction e generalizing depth depth' with
  | var | const => rfl
  | group slot cs ih | op slot name cs r ih =>
    simp only [preorder, preorderAll_eq_flatMap, List.filterMap_cons, asVariable,
      List.filterMap_flatMap]
    apply List.flatMap_congr
    intro c hc
    exact ih c hc _ _

@[simp] theorem occurrences_var (slot : TypeSlot) (name : String) :
    occurrences (var slot name) = [(name, slot.type?)] := rfl

@[simp] theorem occurrences_const (slot : TypeSlot) (v : Value) (n : String)
    (text : Option String) : occurrences (const slot v n text) = [] := rfl

@[simp] theorem occurrences_group (slot : TypeSlot) (cs : List Expr) :
    occurrences (group slot cs) = cs.flatMap occurrences := by
  unfold occurrences
  simp only [preorder, preorderAll_eq_flatMap, List.filterMap_cons, asVariable,
    List.filterMap_flatMap]
  apply List.flatMap_congr
  intro c _
  exact filterMap_preorder _ c

@[simp] theorem occurrences_op (slot : TypeSlot) (name : String) (cs : List Expr)
    (r : Option Resolution) : occurrences (op slot name cs r) = cs.flatMap occurrences := by
  unfold occurrences
  simp only [preorder, preorderAll_eq_flatMap, List.filterMap_cons, asVariable,
    List.filterMap_flatMap]
  apply List.flatMap_congr
  intro c _
  exact filterMap_preorder _ c

/-- A variable occurs with what is known of its type at one of its nodes. -/
theorem mem_occurrences {e : Expr} {name : String} {t? : Option MathType} :
    (name, t?) ∈ e.occurrences ↔ ∃ slot, var slot name ∈ nodes e ∧ slot.type? = t? := by
  induction e with
  | var slot x => simp [eq_comm]
  | const => simp
  | group slot cs ih | op slot f cs r ih =>
    simp only [occurrences_group, occurrences_op, nodes_group, nodes_op, List.mem_flatMap,
      List.mem_append, List.mem_singleton, reduceCtorEq, or_false]
    constructor
    · rintro ⟨c, hc, hmem⟩
      obtain ⟨s, hs, ht⟩ := (ih c hc).1 hmem
      exact ⟨s, ⟨c, hc, hs⟩, ht⟩
    · rintro ⟨s, ⟨c, hc, hs⟩, ht⟩
      exact ⟨c, hc, (ih c hc).2 ⟨s, hs, ht⟩⟩

/-! ### Noting variables -/

section Note

variable {seen vs : List (String × Option MathType)} {v w : String × Option MathType}
  {name : String}

theorem noteVariable_eq (seen : List (String × Option MathType)) (v : String × Option MathType) :
    noteVariable seen v = if v.1 ∈ seen.map Prod.fst then seen else seen ++ [v] := by
  have hany : seen.any (·.1 == v.1) = true ↔ v.1 ∈ seen.map Prod.fst := by simp
  unfold noteVariable
  by_cases h : v.1 ∈ seen.map Prod.fst
  · rw [if_pos h, if_pos (hany.2 h)]
  · rw [if_neg h, if_neg (mt hany.1 h)]

theorem mem_names_noteVariable :
    name ∈ (noteVariable seen v).map Prod.fst ↔ name ∈ seen.map Prod.fst ∨ name = v.1 := by
  rw [noteVariable_eq]
  by_cases h : v.1 ∈ seen.map Prod.fst
  · rw [if_pos h]
    constructor
    · exact Or.inl
    · rintro (hname | rfl)
      · exact hname
      · exact h
  · rw [if_neg h, List.map_append, List.mem_append, List.map_singleton, List.mem_singleton]

theorem mem_names_foldl :
    name ∈ (vs.foldl noteVariable seen).map Prod.fst ↔
      name ∈ seen.map Prod.fst ∨ name ∈ vs.map Prod.fst := by
  induction vs generalizing seen with
  | nil => simp
  | cons v vs ih => rw [List.foldl_cons, ih, mem_names_noteVariable, List.map_cons, List.mem_cons,
      or_assoc]

theorem mem_of_mem_foldl (h : w ∈ vs.foldl noteVariable seen) : w ∈ seen ∨ w ∈ vs := by
  induction vs generalizing seen with
  | nil => exact .inl h
  | cons v vs ih =>
    rcases ih h with hseen | hvs
    · rw [noteVariable_eq] at hseen
      by_cases hv : v.1 ∈ seen.map Prod.fst
      · rw [if_pos hv] at hseen
        exact .inl hseen
      · rw [if_neg hv, List.mem_append, List.mem_singleton] at hseen
        rcases hseen with hseen | rfl
        · exact .inl hseen
        · exact .inr List.mem_cons_self
    · exact .inr (List.mem_cons_of_mem v hvs)

end Note

/-! ### Expressions that have a type -/

variable {env : Environment} {vars : VariableTypes} {e : Expr} {t u : MathType} {name : String}
  {t? : Option MathType}

/-- The name of a variable decides the type that is stored where it stands. -/
theorem HasType.occurrence (he : HasType env vars e t) (h : (name, t?) ∈ e.occurrences) :
    ∃ u, t? = some u ∧ Expr.var (.resolved u) name ∈ nodes e ∧
      env.types.mathematical.get? (variableTypeName env vars name) = some u := by
  obtain ⟨slot, hn, rfl⟩ := mem_occurrences.1 h
  obtain ⟨u, hu⟩ := he.of_mem_nodes hn
  cases hu with
  | var known => exact ⟨u, rfl, hn, known⟩

/-- The used variables are those that occur, each with its type. -/
theorem HasType.mem_usedVariables (he : HasType env vars e t) :
    (name, t?) ∈ e.usedVariables ↔ ∃ u, t? = some u ∧ Expr.var (.resolved u) name ∈ nodes e := by
  rw [usedVariables_eq]
  constructor
  · intro h
    rcases mem_of_mem_foldl h with h | h
    · cases h
    · obtain ⟨u, hu, hn, -⟩ := he.occurrence h
      exact ⟨u, hu, hn⟩
  · rintro ⟨u, rfl, hn⟩
    have hoccurs : (name, some u) ∈ e.occurrences := mem_occurrences.2 ⟨_, hn, rfl⟩
    have hname : name ∈ (e.occurrences.foldl noteVariable []).map Prod.fst :=
      mem_names_foldl.2 (.inr (List.mem_map_of_mem hoccurs))
    obtain ⟨⟨name', u?⟩, hmem, rfl⟩ := List.mem_map.1 hname
    -- what was noted first under the name has the same type
    have hmem' : (name', u?) ∈ e.occurrences := by
      rcases mem_of_mem_foldl hmem with h | h
      · cases h
      · exact h
    obtain ⟨u', rfl, -, known'⟩ := he.occurrence hmem'
    obtain ⟨_, heq, -, known⟩ := he.occurrence hoccurs
    cases heq
    obtain rfl : u' = u := Option.some.inj (known'.symm.trans known)
    exact hmem

/-- The type of a used variable is the one that is known under its name. -/
theorem HasType.known_of_mem (he : HasType env vars e t) (h : (name, t?) ∈ e.usedVariables) :
    ∃ u, t? = some u ∧ env.types.mathematical.get? (variableTypeName env vars name) = some u := by
  obtain ⟨u, rfl, hn⟩ := he.mem_usedVariables.1 h
  have hoccurs : (name, some u) ∈ e.occurrences := mem_occurrences.2 ⟨_, hn, rfl⟩
  obtain ⟨_, heq, -, known⟩ := he.occurrence hoccurs
  exact ⟨_, heq, known⟩

end Formula.Expr
