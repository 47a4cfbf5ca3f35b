import Formula.Proofs.Expr.Variables
import Mathlib.Data.List.Nodup
/-!
Both walks over an expression come to every place of it, once, and list what stands there with its
depth. One comes to a place before all places below it, the other after them. The order of the
leaves is the same in both, and so are the variables in the order in which they are first met.
-/

namespace Formula.Expr

/-- What holds of an expression if it holds of the expressions directly below it holds of every
expression. -/
theorem inductionOnChildren {motive : Expr → Prop}
    (step : ∀ e : Expr, (∀ c ∈ e.children, motive c) → motive e) (e : Expr) : motive e := by
  induction e with
  | var | const => exact step _ fun _ h => nomatch h
  | group slot cs ih => exact step _ ih
  | op slot name cs resolution ih => exact step _ ih

/-! ### Places -/

/-- What stands at a place. A place is the way to it from the root: which child is taken, step by
step. -/
def at? (e : Expr) : List Nat → Option Expr
  | [] => some e
  | i :: p => e.children[i]?.bind (·.at? p)

/-- Whether a node is visited before what is below it or after. -/
inductive Order where
  | parentsFirst
  | childrenFirst

/-- A node and what is below it, in order. -/
def Order.put {α : Type} : Order → α → List α → List α
  | parentsFirst, x, xs => x :: xs
  | childrenFirst, x, xs => xs ++ [x]

/-- The nodes of an expression with their depths, in order. -/
def walk (o : Order) (depth : Nat) (e : Expr) : List (Nat × Expr) :=
  match o with
  | .parentsFirst => preorder depth e
  | .childrenFirst => postorder depth e

mutual

/-- The places of an expression, in order, with what stands there. -/
def visits (o : Order) : Expr → List (List Nat × Expr)
  | e@(group _ cs) => o.put ([], e) (visitsAll o 0 cs)
  | e@(op _ _ cs _) => o.put ([], e) (visitsAll o 0 cs)
  | e => o.put ([], e) []

/-- The places of expressions side by side, of which the first is child number `i`. -/
def visitsAll (o : Order) (i : Nat) : List Expr → List (List Nat × Expr)
  | [] => []
  | e :: es => (visits o e).map (fun v => (i :: v.1, v.2)) ++ visitsAll o (i + 1) es

end

section Order

variable {α β : Type} (o : Order) {x y : α} {xs : List α}

theorem Order.mem_put : y ∈ o.put x xs ↔ y = x ∨ y ∈ xs := by
  cases o <;> simp [put, or_comm]

theorem Order.map_put (f : α → β) : (o.put x xs).map f = o.put (f x) (xs.map f) := by
  cases o <;> simp [put]

theorem Order.length_put : (o.put x xs).length = xs.length + 1 := by
  cases o <;> simp [put]

end Order

variable {o : Order} {e n : Expr} {p : List Nat}

theorem visitsAll_eq (o : Order) (i : Nat) (es : List Expr) :
    visitsAll o i es =
      (es.zipIdx i).flatMap fun c => (visits o c.1).map fun v => (c.2 :: v.1, v.2) := by
  induction es generalizing i with
  | nil => rfl
  | cons e es ih => rw [visitsAll, ih, List.zipIdx_cons, List.flatMap_cons]

theorem visits_eq (o : Order) (e : Expr) : visits o e = o.put ([], e)
    (e.children.zipIdx.flatMap fun c => (visits o c.1).map fun v => (c.2 :: v.1, v.2)) := by
  cases e with
  | var | const => rfl
  | group | op => rw [visits, visitsAll_eq]; rfl

theorem walk_eq (o : Order) (depth : Nat) (e : Expr) :
    walk o depth e = o.put (depth, e) (e.children.flatMap (walk o (depth + 1))) := by
  cases o with
  | parentsFirst =>
    cases e with
    | var | const => rfl
    | group | op => simp only [walk, preorder, preorderAll_eq_flatMap]; rfl
  | childrenFirst =>
    cases e with
    | var | const => rfl
    | group | op => simp only [walk, postorder, postorderAll_eq_flatMap]; rfl

/-- A walk lists what stands at the places, with the lengths of the ways there. -/
theorem walk_eq_map_visits (o : Order) (depth : Nat) (e : Expr) :
    walk o depth e = (visits o e).map fun v => (depth + v.1.length, v.2) := by
  induction e using inductionOnChildren generalizing depth with
  | step e ih =>
    have hchildren : e.children.flatMap (walk o (depth + 1)) = e.children.zipIdx.flatMap fun c =>
        (visits o c.1).map fun v => (depth + (c.2 :: v.1).length, v.2) := by
      conv_lhs => rw [← List.zipIdx_map_fst 0 e.children, List.flatMap_map]
      refine List.flatMap_congr fun c hc => ?_
      rw [ih c.1 (List.mem_of_getElem? (List.mem_zipIdx_iff_getElem?.1 hc))]
      refine List.map_congr_left fun v _ => ?_
      rw [List.length_cons]
      congr 1
      omega
    rw [walk_eq, visits_eq, Order.map_put, hchildren, List.map_flatMap]
    simp only [List.map_map, Function.comp_def, List.length_nil, Nat.add_zero]

/-- Every place is visited, and what stands there is listed with it. -/
theorem mem_visits : (p, n) ∈ visits o e ↔ e.at? p = some n := by
  induction e using inductionOnChildren generalizing p n with
  | step e ih =>
    rw [visits_eq, Order.mem_put]
    cases p with
    | nil => simp [at?, eq_comm]
    | cons i p =>
      simp only [at?, Prod.mk.injEq, reduceCtorEq, false_and, false_or, List.mem_flatMap,
        List.mem_map, List.cons.injEq, Option.bind_eq_some_iff]
      constructor
      · rintro ⟨⟨c, j⟩, hc, ⟨q, m⟩, hm, ⟨rfl, rfl⟩, rfl⟩
        have hc' := List.mem_zipIdx_iff_getElem?.1 hc
        exact ⟨c, hc', (ih c (List.mem_of_getElem? hc')).1 hm⟩
      · rintro ⟨c, hc, hn⟩
        exact ⟨(c, i), List.mem_zipIdx_iff_getElem?.2 hc, (p, n),
          (ih c (List.mem_of_getElem? hc)).2 hn, ⟨rfl, rfl⟩, rfl⟩

/-! ### The order of the places -/

/-- A place may be visited before another: the other is not on the way to it if parents come first,
and it is not on the way to the other if children do. No place may be visited before itself. -/
def Order.Allows : Order → List Nat → List Nat → Prop
  | parentsFirst, p, q => ¬q <+: p
  | childrenFirst, p, q => ¬p <+: q

theorem Order.Allows.ne {o : Order} {p q : List Nat} (h : o.Allows p q) : p ≠ q := by
  rintro rfl
  cases o with
  | parentsFirst | childrenFirst => exact h (List.prefix_refl p)

theorem Order.allows_cons {i : Nat} {p q : List Nat} :
    o.Allows (i :: p) (i :: q) ↔ o.Allows p q := by
  cases o <;> simp [Allows, List.cons_prefix_cons]

theorem Order.allows_cons_of_ne {i j : Nat} (h : i ≠ j) (p q : List Nat) :
    o.Allows (i :: p) (j :: q) := by
  cases o <;> simp [Allows, List.cons_prefix_cons, h, h.symm]

/-- The root comes first or last. -/
theorem Order.pairwise_put {x : List Nat × Expr} {xs : List (List Nat × Expr)} (hx : x.1 = [])
    (hxs : ∀ y ∈ xs, y.1 ≠ []) (h : xs.Pairwise fun v w => o.Allows v.1 w.1) :
    (o.put x xs).Pairwise fun v w => o.Allows v.1 w.1 := by
  cases o with
  | parentsFirst =>
    refine List.pairwise_cons.2 ⟨fun y hy => ?_, h⟩
    rw [hx]
    exact fun hprefix => hxs y hy (List.prefix_nil.1 hprefix)
  | childrenFirst =>
    refine List.pairwise_append.2 ⟨h, List.pairwise_singleton _ _, fun y hy z hz => ?_⟩
    rw [List.mem_singleton.1 hz, hx]
    exact fun hprefix => hxs y hy (List.prefix_nil.1 hprefix)

theorem pairwise_snd_zipIdx {α : Type} (xs : List α) (i : Nat) :
    (xs.zipIdx i).Pairwise fun a b => a.2 ≠ b.2 := by
  induction xs generalizing i with
  | nil => exact .nil
  | cons x xs ih =>
    refine List.pairwise_cons.2 ⟨fun y hy => ?_, ih (i + 1)⟩
    have hle := List.le_snd_of_mem_zipIdx hy
    exact Nat.ne_of_lt hle

/-- The places are visited in order. -/
theorem pairwise_visits (o : Order) (e : Expr) :
    (visits o e).Pairwise fun v w => o.Allows v.1 w.1 := by
  induction e using inductionOnChildren with
  | step e ih =>
    rw [visits_eq]
    refine Order.pairwise_put rfl (fun y hy => ?_) (List.pairwise_flatMap.2 ⟨fun c hc => ?_, ?_⟩)
    · obtain ⟨c, -, hy⟩ := List.mem_flatMap.1 hy
      obtain ⟨v, -, rfl⟩ := List.mem_map.1 hy
      exact List.cons_ne_nil _ _
    · have hmem := List.mem_of_getElem? (List.mem_zipIdx_iff_getElem?.1 hc)
      exact List.pairwise_map.2 ((ih c.1 hmem).imp Order.allows_cons.2)
    · -- places below two children differ in their first step
      refine (pairwise_snd_zipIdx e.children 0).imp fun hne v hv w hw => ?_
      obtain ⟨v, -, rfl⟩ := List.mem_map.1 hv
      obtain ⟨w, -, rfl⟩ := List.mem_map.1 hw
      exact Order.allows_cons_of_ne hne _ _

theorem nodup_visits (o : Order) (e : Expr) : (visits o e).Nodup :=
  (pairwise_visits o e).imp fun h heq => h.ne (congrArg Prod.fst heq)

/-- Both walks visit the same places. -/
theorem visits_perm (o o' : Order) (e : Expr) : (visits o e).Perm (visits o' e) := by
  refine (List.perm_ext_iff_of_nodup (nodup_visits o e) (nodup_visits o' e)).2 fun v => ?_
  rw [mem_visits, mem_visits]

/-! ### Counting -/

theorem nodeCount_eq (e : Expr) : nodeCount e = 1 + nodeCountAll e.children := by
  cases e <;> rfl

theorem length_flatMap_eq {es : List Expr} {f : Expr → List (Nat × Expr)}
    (h : ∀ e ∈ es, (f e).length = nodeCount e) : (es.flatMap f).length = nodeCountAll es := by
  induction es with
  | nil => rfl
  | cons e es ih =>
    rw [List.flatMap_cons, List.length_append, nodeCountAll, h e List.mem_cons_self,
      ih fun c hc => h c (List.mem_cons_of_mem _ hc)]

theorem length_walk (o : Order) (depth : Nat) (e : Expr) :
    (walk o depth e).length = nodeCount e := by
  induction e using inductionOnChildren generalizing depth with
  | step e ih =>
    rw [walk_eq, Order.length_put, length_flatMap_eq fun c hc => ih c hc _, nodeCount_eq,
      Nat.add_comm]

/-! ### Variables -/

/-- The variables stand in the same order in both walks. -/
theorem filterMap_walk (o : Order) (depth : Nat) (e : Expr) :
    (walk o depth e).filterMap (fun n => n.2.asVariable) = e.occurrences := by
  cases o with
  | parentsFirst => exact filterMap_preorder depth e
  | childrenFirst =>
    induction e generalizing depth with
    | var | const => rfl
    | group slot cs ih | op slot name cs r ih =>
      simp only [walk, postorder, postorderAll_eq_flatMap, List.filterMap_append,
        List.filterMap_flatMap, occurrences_group, occurrences_op]
      simp only [List.filterMap_cons, asVariable, List.filterMap_nil, List.append_nil]
      exact List.flatMap_congr fun c hc => ih c hc _

/-- Noting variables adds the names that are new, each where it is first met. -/
theorem names_foldl (seen vs : List (String × Option MathType)) :
    (vs.foldl noteVariable seen).map Prod.fst = seen.map Prod.fst ++
      ((vs.map Prod.fst).filter (· ∉ seen.map Prod.fst)).eraseDups := by
  induction vs generalizing seen with
  | nil => simp
  | cons v vs ih =>
    rw [List.foldl_cons, ih, noteVariable_eq, List.map_cons, List.filter_cons]
    by_cases h : v.1 ∈ seen.map Prod.fst
    · have hold : ¬decide (v.1 ∉ seen.map Prod.fst) = true := by simpa using h
      rw [if_pos h, if_neg hold]
    · have hnew : decide (v.1 ∉ seen.map Prod.fst) = true := by simpa using h
      rw [if_neg h, if_pos hnew, List.eraseDups_cons, List.map_append, List.append_assoc,
        List.filter_filter, List.map_singleton, List.singleton_append]
      congr 3
      refine List.filter_congr fun x _ => ?_
      simp only [List.mem_append, List.mem_singleton, not_or, Bool.decide_and, decide_not]
      rw [Bool.and_comm]
      rfl

theorem nodup_foldl {seen : List (String × Option MathType)} (h : (seen.map Prod.fst).Nodup)
    (vs : List (String × Option MathType)) :
    ((vs.foldl noteVariable seen).map Prod.fst).Nodup := by
  induction vs generalizing seen with
  | nil => exact h
  | cons v vs ih =>
    refine ih ?_
    rw [noteVariable_eq]
    by_cases hv : v.1 ∈ seen.map Prod.fst
    · rwa [if_pos hv]
    · rw [if_neg hv, List.map_append, List.map_singleton, ← List.concat_eq_append]
      exact List.Nodup.concat hv h

/-- The used variables are the names in the order in which they are first met, without
repetition. -/
theorem names_usedVariables (e : Expr) :
    e.usedVariables.map Prod.fst = (e.occurrences.map Prod.fst).eraseDups := by
  rw [usedVariables_eq, names_foldl]
  simp

theorem usedVariables_eq_nil_iff (e : Expr) : e.usedVariables = [] ↔ e.occurrences = [] := by
  rw [← List.map_eq_nil_iff (f := Prod.fst), names_usedVariables]
  constructor
  · intro h
    refine List.eq_nil_iff_forall_not_mem.2 fun v hv => ?_
    have hname : v.1 ∈ (e.occurrences.map Prod.fst).eraseDups :=
      List.mem_eraseDups.2 (List.mem_map_of_mem hv)
    rw [h] at hname
    cases hname
  · intro h
    rw [h]
    rfl

theorem areConstant_iff (es : List Expr) :
    areConstant es = true ↔ ∀ c ∈ es, isConstant c = true := by
  induction es with
  | nil => simp [areConstant]
  | cons e es ih => simp [areConstant, ih]

theorem isConstant_iff (e : Expr) : e.isConstant = true ↔ e.occurrences = [] := by
  induction e with
  | var | const => simp [isConstant]
  | group slot cs ih | op slot name cs r ih =>
    simp only [isConstant, areConstant_iff, occurrences_group, occurrences_op,
      List.flatMap_eq_nil_iff]
    exact forall₂_congr ih

/-! ### Both walks -/

/-- A list of visits to an expression: every place is visited once and in order, and each visit
comes with what stands at the place. -/
structure Visits (o : Order) (e : Expr) (vs : List (List Nat × Expr)) : Prop where
  complete : ∀ p n, (p, n) ∈ vs ↔ e.at? p = some n
  once : (vs.map Prod.fst).Nodup
  ordered : vs.Pairwise fun v w => o.Allows v.1 w.1

theorem visits_visits (o : Order) (e : Expr) : Visits o e (visits o e) where
  complete _ _ := mem_visits
  once := List.pairwise_map.2 ((pairwise_visits o e).imp Order.Allows.ne)
  ordered := pairwise_visits o e

/-- The names of the variables that are met on a walk. -/
def metNames (ns : List (Nat × Expr)) : List String :=
  ns.filterMap fun n => n.2.asVariable.map Prod.fst

theorem metNames_walk (o : Order) (depth : Nat) (e : Expr) :
    metNames (walk o depth e) = e.occurrences.map Prod.fst := by
  rw [← filterMap_walk o depth e, List.map_filterMap]
  rfl

/-- Both walks visit every place of an expression once, one with parents first and the other with
children first, and list what stands there with the depth of the place; so they list the same, as
often as the expression has nodes. The variables are first met in the same order, in which they are
the used variables, and there are none exactly if the expression is constant. -/
theorem walks_agree (e : Expr) :
    (∃ vs, Visits .parentsFirst e vs ∧ e.preorder 0 = vs.map fun v => (v.1.length, v.2)) ∧
    (∃ vs, Visits .childrenFirst e vs ∧ e.postorder 0 = vs.map fun v => (v.1.length, v.2)) ∧
    (e.preorder 0).Perm (e.postorder 0) ∧
    (e.preorder 0).length = e.nodeCount ∧ (e.postorder 0).length = e.nodeCount ∧
    (metNames (e.preorder 0)).eraseDups = e.usedVariables.map Prod.fst ∧
    (metNames (e.postorder 0)).eraseDups = e.usedVariables.map Prod.fst ∧
    (e.usedVariables.map Prod.fst).Nodup ∧
    (e.isConstant = true ↔ e.usedVariables = []) := by
  have hwalk : ∀ o, walk o 0 e = (visits o e).map fun v => (v.1.length, v.2) := by
    intro o
    rw [walk_eq_map_visits]
    simp only [Nat.zero_add]
  have hpre : e.preorder 0 = _ := hwalk .parentsFirst
  have hpost : e.postorder 0 = _ := hwalk .childrenFirst
  refine ⟨⟨_, visits_visits _ e, hpre⟩, ⟨_, visits_visits _ e, hpost⟩, ?_,
    length_walk .parentsFirst 0 e, length_walk .childrenFirst 0 e, ?_, ?_, ?_, ?_⟩
  · rw [hpre, hpost]
    exact (visits_perm _ _ e).map _
  · rw [names_usedVariables]
    exact congrArg List.eraseDups (metNames_walk .parentsFirst 0 e)
  · rw [names_usedVariables]
    exact congrArg List.eraseDups (metNames_walk .childrenFirst 0 e)
  · exact @nodup_foldl [] List.nodup_nil e.occurrences
  · rw [isConstant_iff, usedVariables_eq_nil_iff]

/-- The expression `-y * () * y`, with an empty group between equal variables. -/
def aroundGroup : Expr :=
  .op .pending "*" [.op .pending "-" [.var .pending "y"] none, .group .pending [],
    .var .pending "y"] none

example : (aroundGroup.preorder 0).map (·.1) = [0, 1, 2, 1, 1] ∧
    (aroundGroup.postorder 0).map (·.1) = [2, 1, 1, 1, 0] ∧
    aroundGroup.usedVariables.map (·.1) = ["y"] := by decide

end Formula.Expr
