import Formula.Proofs.Expr.Resolution
import Formula.Proofs.Operator.Choice
/-!
The types of expressions as a judgement. An expression that resolves without errors has a type by
its rules, and what they say of a node is all that compilation relies on.
-/

namespace Formula

namespace Expr

/-- An expression has a type: each node holds the type that its rule gives it, and an operator holds
the overload chosen for the types of its operands. -/
inductive HasType (env : Environment) (vars : VariableTypes) : Expr → MathType → Prop
  | group {c t} (child : HasType env vars c t) : HasType env vars (group (.resolved t) [c]) t
  | var {name t} (known : env.types.mathematical.get? (variableTypeName env vars name) = some t) :
      HasType env vars (var (.resolved t) name) t
  | const {v typeName text t} (known : env.types.mathematical.get? typeName = some t)
      (belongs : ∀ c, t.representation? env.config.defaultMode = some c → c.complaint v = none) :
      HasType env vars (const (.resolved t) v typeName text) t
  | op {name cs ts r} (length : cs.length = ts.length)
      (operands : ∀ c t, (c, t) ∈ cs.zip ts → HasType env vars c t)
      (choice : env.resolveOperator name ts = .ok r) :
      HasType env vars (op (.resolved r.overload.result) name cs (some r)) r.overload.result

variable {env : Environment} {vars : VariableTypes}

theorem HasType.slot_eq {e : Expr} {t : MathType} (h : HasType env vars e t) :
    e.slot = .resolved t := by
  cases h <;> rfl

theorem slots_of_zip {cs : List Expr} {ts : List MathType}
    (h : cs.map slot = ts.map TypeSlot.resolved) {c : Expr} {t : MathType}
    (hct : (c, t) ∈ cs.zip ts) : c.slot = .resolved t := by
  obtain ⟨i, hi, hget⟩ := List.mem_iff_getElem.1 hct
  simp only [List.getElem_zip, Prod.mk.injEq] at hget
  rw [List.length_zip, Nat.lt_min] at hi
  have := congrArg (·[i]?) h
  simpa [hi.1, hi.2, hget] using this

theorem hasType_of_settled {e : Expr} {t : MathType} (hs : ∀ n ∈ nodes e, Settled env vars n)
    (ht : e.slot = .resolved t) : HasType env vars e t := by
  induction e generalizing t with
  | var slot name =>
    obtain rfl : slot = .resolved t := ht
    exact .var ((hs _ (self_mem_nodes _) t).1 rfl)
  | const slot v typeName text =>
    obtain rfl : slot = .resolved t := ht
    obtain ⟨known, belongs⟩ := (hs _ (self_mem_nodes _) t).1 rfl
    exact .const known belongs
  | group slot cs ih =>
    obtain rfl : slot = .resolved t := ht
    obtain ⟨c, rfl, hc⟩ := (hs _ (self_mem_nodes _) t).1 rfl
    exact .group (ih c (by simp) (fun n hn => hs n (by simp [hn])) hc)
  | op slot name cs resolution ih =>
    obtain rfl : slot = .resolved t := ht
    obtain ⟨hchoice, hslot⟩ := hs _ (self_mem_nodes _)
    obtain ⟨r, rfl, rfl⟩ := (hslot t).1 rfl
    obtain ⟨ts, hts, hr⟩ := (hchoice r).1 rfl
    refine .op (by simpa using congrArg List.length hts) (fun c t hct => ?_) hr
    have hc : c ∈ cs := (List.of_mem_zip hct).1
    exact ih c hc (fun n hn => hs n (by simp; exact .inl ⟨c, hc, hn⟩)) (slots_of_zip hts hct)

/-- An expression that resolves without errors has a type. -/
theorem hasType_resolve {e : Expr} (h : (env.resolve vars e).2.hasErrors = false) :
    ∃ t, HasType env vars (env.resolve vars e).1 t := by
  rw [Outcome.hasErrors_eq_false] at h
  obtain ⟨t, ht⟩ := Option.isSome_iff_exists.1 ((findings_eq_nil_iff e).1 h)
  exact ⟨t, hasType_of_settled (fun n hn => (settled_resolve e n hn).2)
    (TypeSlot.type?_eq_some.1 ht)⟩

theorem exists_mem_zip {cs : List Expr} {ts : List MathType} (length : cs.length = ts.length)
    {c : Expr} (hc : c ∈ cs) : ∃ t, (c, t) ∈ cs.zip ts := by
  obtain ⟨i, hi, rfl⟩ := List.mem_iff_getElem.1 hc
  have hzip : i < (cs.zip ts).length := by
    rw [List.length_zip]
    omega
  refine ⟨ts[i], ?_⟩
  rw [← List.getElem_zip (h := hzip)]
  exact List.getElem_mem hzip

/-- The type that stands at a child is the one it is listed with. -/
theorem mem_zip_of_slot {cs : List Expr} {ts : List MathType} (length : cs.length = ts.length)
    (typed : ∀ c t, (c, t) ∈ cs.zip ts → HasType env vars c t) {c : Expr} {t : MathType}
    (hc : c ∈ cs) (hslot : c.slot = .resolved t) : (c, t) ∈ cs.zip ts := by
  obtain ⟨u, hzip⟩ := exists_mem_zip length hc
  obtain rfl : u = t := TypeSlot.resolved.inj ((typed c u hzip).slot_eq.symm.trans hslot)
  exact hzip

theorem nodes_subset_group {slot : TypeSlot} {cs : List Expr} {c : Expr} (hc : c ∈ cs) :
    nodes c ⊆ nodes (group slot cs) := by
  intro n hn
  rw [nodes_group]
  exact List.mem_append_left _ (List.mem_flatMap.2 ⟨c, hc, hn⟩)

theorem nodes_subset_op {slot : TypeSlot} {name : String} {cs : List Expr} {r : Option Resolution}
    {c : Expr} (hc : c ∈ cs) : nodes c ⊆ nodes (op slot name cs r) := by
  intro n hn
  rw [nodes_op]
  exact List.mem_append_left _ (List.mem_flatMap.2 ⟨c, hc, hn⟩)

/-- Every node of an expression that has a type has one. -/
theorem HasType.of_mem_nodes {e n : Expr} {t : MathType} (h : HasType env vars e t)
    (hn : n ∈ nodes e) : ∃ u, HasType env vars n u := by
  induction h with
  | @var name t known =>
    rw [nodes_var, List.mem_singleton] at hn
    subst hn
    exact ⟨t, .var known⟩
  | @const v typeName text t known belongs =>
    rw [nodes_const, List.mem_singleton] at hn
    subst hn
    exact ⟨t, .const known belongs⟩
  | @group c t child ih =>
    rw [nodes_group, List.mem_append, List.mem_singleton] at hn
    rcases hn with hn | rfl
    · exact ih (by simpa using hn)
    · exact ⟨t, .group child⟩
  | @op name cs ts r length operands choice ih =>
    rw [nodes_op, List.mem_append, List.mem_singleton, List.mem_flatMap] at hn
    rcases hn with ⟨c, hc, hn⟩ | rfl
    · obtain ⟨u, hzip⟩ := exists_mem_zip length hc
      exact ih c u hzip hn
    · exact ⟨_, .op length operands choice⟩

/-- An operator holds an overload of its name, for as many operands as it has. -/
theorem choice_spec {name : String} {cs : List Expr} {ts : List MathType} {r : Resolution}
    (length : cs.length = ts.length) (choice : env.resolveOperator name ts = .ok r) :
    r.overload ∈ env.operators.candidates name ∧ cs.length = r.overload.arity := by
  obtain ⟨hmem, hcasts⟩ := OperatorRegistry.resolve_eq_ok choice
  exact ⟨hmem, length.trans (Overload.length_eq_of_casts? hcasts)⟩

end Expr

end Formula
