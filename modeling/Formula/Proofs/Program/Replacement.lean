import Formula.Proofs.Program.Readiness
/-!
One leaf of an expression in place of another. Where both get the same type, resolving makes the
same of all that is around them; where both have the same value, so do the expressions.
-/

namespace Formula

namespace Expr

/-- Two expressions are the same but for one place, where the first has `c` and the second `d`. -/
inductive Replaces (c d : Expr) : Expr → Expr → Prop
  | here : Replaces c d c d
  | group {slot before e e' after} (below : Replaces c d e e') :
      Replaces c d (group slot (before ++ e :: after)) (group slot (before ++ e' :: after))
  | op {slot name before e e' after r} (below : Replaces c d e e') :
      Replaces c d (op slot name (before ++ e :: after) r) (op slot name (before ++ e' :: after) r)

variable {c d e e' : Expr}

theorem Replaces.slot_eq (h : Replaces c d e e') (hcd : c.slot = d.slot) : e.slot = e'.slot := by
  cases h with
  | here => exact hcd
  | group below => rfl
  | op below => rfl

/-! ### Variables that occur -/

theorem uses_var {slot : TypeSlot} {name x : String} : (var slot name).Uses x ↔ x = name := by
  simp [Uses]

theorem uses_group {slot : TypeSlot} {cs : List Expr} {x : String} :
    (group slot cs).Uses x ↔ ∃ c ∈ cs, c.Uses x := by
  simp only [Uses, nodes_group, List.mem_append, List.mem_flatMap, List.mem_singleton,
    reduceCtorEq, or_false]
  exact ⟨fun ⟨s, c, hc, hs⟩ => ⟨c, hc, s, hs⟩, fun ⟨c, hc, s, hs⟩ => ⟨s, c, hc, hs⟩⟩

theorem uses_op {slot : TypeSlot} {name : String} {cs : List Expr} {r : Option Resolution}
    {x : String} : (op slot name cs r).Uses x ↔ ∃ c ∈ cs, c.Uses x := by
  simp only [Uses, nodes_op, List.mem_append, List.mem_flatMap, List.mem_singleton,
    reduceCtorEq, or_false]
  exact ⟨fun ⟨s, c, hc, hs⟩ => ⟨c, hc, s, hs⟩, fun ⟨c, hc, s, hs⟩ => ⟨s, c, hc, hs⟩⟩

/-! ### Resolving -/

variable {env : Environment} {vars vars' : VariableTypes}

theorem resolveAll_congr {cs : List Expr}
    (h : ∀ c ∈ cs, resolve env vars c = resolve env vars' c) :
    resolveAll env vars cs = resolveAll env vars' cs := by
  induction cs with
  | nil => rfl
  | cons c cs ih =>
    rw [List.forall_mem_cons] at h
    simp only [resolveAll, h.1, ih h.2]

/-- Resolving looks at the types of the variables that occur, and of no others. -/
theorem resolve_congr (h : ∀ name, e.Uses name → vars.get? name = vars'.get? name) :
    resolve env vars e = resolve env vars' e := by
  induction e with
  | var slot name => simp only [resolve, resolveVariable, h name (uses_var.2 rfl)]
  | const slot v typeName text => rfl
  | group slot cs ih =>
    have hcs : ∀ c ∈ cs, resolve env vars c = resolve env vars' c :=
      fun c hc => ih c hc fun name hn => h name (uses_group.2 ⟨c, hc, hn⟩)
    simp only [resolve, resolveAll_congr hcs]
  | op slot name cs r ih =>
    have hcs : ∀ c ∈ cs, resolve env vars c = resolve env vars' c :=
      fun c hc => ih c hc fun name hn => h name (uses_op.2 ⟨c, hc, hn⟩)
    simp only [resolve, resolveAll_congr hcs]

theorem resolveGroup_congr {cs cs' : List Expr} (h : cs.map slot = cs'.map slot) :
    resolveGroup cs = resolveGroup cs' := by
  have length : cs.length = cs'.length := by simpa using congrArg List.length h
  match cs, cs' with
  | [], [] => rfl
  | [c], [c'] =>
    have hslot : c.slot = c'.slot := by simpa using h
    simp only [resolveGroup, hslot]
  | _ :: _ :: _, _ :: _ :: _ => simp only [resolveGroup, length]
  | [], _ :: _ | _ :: _, [] => simp at length
  | [_], _ :: _ :: _ | _ :: _ :: _, [_] => simp at length

theorem mapM_type?_congr {cs cs' : List Expr} (h : cs.map slot = cs'.map slot) :
    cs.mapM type? = cs'.mapM type? := by
  refine Option.ext fun ts => ?_
  rw [mapM_type?_eq_some, mapM_type?_eq_some, h]

/-- Expressions side by side, of which one is replaced, are resolved alike but for that one. -/
theorem resolveAll_replaces {before after : List Expr}
    (agree : ∀ n ∈ before ++ e :: after, ∀ name, n.Uses name →
      vars.get? name = vars'.get? name)
    (found : (resolve env vars e).2 = (resolve env vars' e').2) :
    ∃ before' after' below,
      resolveAll env vars (before ++ e :: after) =
        (before' ++ (resolve env vars e).1 :: after', below) ∧
      resolveAll env vars' (before ++ e' :: after) =
        (before' ++ (resolve env vars' e').1 :: after', below) := by
  induction before with
  | nil =>
    have hafter : resolveAll env vars after = resolveAll env vars' after :=
      resolveAll_congr fun n hn => resolve_congr (agree n (List.mem_cons_of_mem _ hn))
    exact ⟨[], (resolveAll env vars after).1, _, rfl, by rw [hafter, found]; rfl⟩
  | cons b before ih =>
    rw [List.cons_append, List.forall_mem_cons] at agree
    obtain ⟨before', after', below, h, h'⟩ := ih agree.2
    have hb : resolve env vars b = resolve env vars' b := resolve_congr agree.1
    refine ⟨(resolve env vars b).1 :: before', after', (resolve env vars b).2 ++ below, ?_, ?_⟩
    · rw [List.cons_append, resolveAll, h]
      rfl
    · rw [List.cons_append, resolveAll, h', ← hb]
      rfl

/-- A leaf that gets the type of another, and by which nothing is found wrong, can take its place:
around it the types, overloads and findings are the same. -/
theorem Replaces.resolve {c' d' : Expr} (h : Replaces c d e e')
    (agree : ∀ name, e.Uses name → vars.get? name = vars'.get? name)
    (hc : Expr.resolve env vars c = (c', [])) (hd : Expr.resolve env vars' d = (d', []))
    (hslot : c'.slot = d'.slot) :
    Replaces c' d' (Expr.resolve env vars e).1 (Expr.resolve env vars' e').1 ∧
      (Expr.resolve env vars e).2 = (Expr.resolve env vars' e').2 := by
  induction h with
  | here =>
    rw [hc, hd]
    exact ⟨.here, rfl⟩
  | @group slot before e e' after below ih =>
    obtain ⟨hreplaces, hfound⟩ := ih fun name hn => agree name (uses_group.2 ⟨e, by simp, hn⟩)
    obtain ⟨before', after', found, h, h'⟩ := resolveAll_replaces
      (fun n hn name hname => agree name (uses_group.2 ⟨n, hn, hname⟩)) hfound
    have hgroup : resolveGroup (before' ++ (Expr.resolve env vars e).1 :: after') =
        resolveGroup (before' ++ (Expr.resolve env vars' e').1 :: after') :=
      resolveGroup_congr (by simp [hreplaces.slot_eq hslot])
    simp only [Expr.resolve, h, h', hgroup]
    exact ⟨.group hreplaces, trivial⟩
  | @op slot name before e e' after r below ih =>
    obtain ⟨hreplaces, hfound⟩ := ih fun name hn => agree name (uses_op.2 ⟨e, by simp, hn⟩)
    obtain ⟨before', after', found, h, h'⟩ := resolveAll_replaces
      (fun n hn name hname => agree name (uses_op.2 ⟨n, hn, hname⟩)) hfound
    have htypes : (before' ++ (Expr.resolve env vars e).1 :: after').mapM type? =
        (before' ++ (Expr.resolve env vars' e').1 :: after').mapM type? :=
      mapM_type?_congr (by simp [hreplaces.slot_eq hslot])
    simp only [Expr.resolve, h, h', resolveOperator, htypes]
    exact ⟨.op hreplaces, trivial⟩

theorem uses_resolve {x : String} : (resolve env vars e).1.Uses x ↔ e.Uses x := by
  induction e with
  | var slot name => exact uses_var.trans uses_var.symm
  | const slot v typeName text => simp [resolve, Uses]
  | group slot cs ih =>
    simp only [resolve_group, uses_group, List.mem_map, exists_exists_and_eq_and]
    exact exists_congr fun c => and_congr_right fun hc => ih c hc
  | op slot name cs r ih =>
    simp only [resolve_op, uses_op, List.mem_map, exists_exists_and_eq_and]
    exact exists_congr fun c => and_congr_right fun hc => ih c hc

/-- Where nothing is found wrong with an expression, nothing is with a place in it. -/
theorem Replaces.found (h : Replaces c d e e') (found : (Expr.resolve env vars e).2 = []) :
    (Expr.resolve env vars c).2 = [] := by
  induction h with
  | here => exact found
  | @group slot before e e' after below ih =>
    rw [resolve_group] at found
    simp only [List.append_eq_nil_iff, List.flatMap_eq_nil_iff] at found
    exact ih (found.1 e (by simp))
  | @op slot name before e e' after r below ih =>
    rw [resolve_op] at found
    simp only [List.append_eq_nil_iff, List.flatMap_eq_nil_iff] at found
    exact ih (found.1 e (by simp))

theorem resolve_const {slot : TypeSlot} {v : Value} {typeName : String} {text : Option String}
    (found : (resolve env vars (const slot v typeName text)).2 = []) :
    ∃ t, env.types.mathematical.get? typeName = some t ∧
      (∀ c, t.representation? env.config.defaultMode = some c → c.complaint v = none) ∧
      resolve env vars (const slot v typeName text) =
        (const (.resolved t) v typeName text, []) := by
  cases htype : env.types.mathType typeName with
  | error err => simp [resolve, resolveConstant, htype] at found
  | ok t =>
    cases hcomplaint : constantComplaint env t v with
    | some why => simp [resolve, resolveConstant, htype, hcomplaint] at found
    | none =>
      refine ⟨t, TypeRegistry.mathType_eq_ok.1 htype, constantComplaint_eq_none.1 hcomplaint, ?_⟩
      simp [resolve, resolveConstant, htype, hcomplaint]

theorem resolve_var {slot : TypeSlot} {name typeName : String} {t : MathType}
    (declared : vars.get? name = some typeName)
    (known : env.types.mathematical.get? typeName = some t) :
    resolve env vars (var slot name) = (var (.resolved t) name, []) := by
  simp [resolve, resolveVariable, declared, TypeRegistry.mathType_eq_ok.2 known]

/-- Where nothing is found wrong, a variable of its type can take the place of a constant: around it
nothing changes. -/
theorem Replaces.resolve_literal {slot slot' : TypeSlot} {v : Value} {typeName x : String}
    {text : Option String} (h : Replaces (const slot v typeName text) (var slot' x) e e')
    (unused : ¬ e.Uses x) (found : (Expr.resolve env vars e).2 = []) :
    ∃ t, env.types.mathematical.get? typeName = some t ∧
      (∀ c, t.representation? env.config.defaultMode = some c → c.complaint v = none) ∧
      Replaces (const (.resolved t) v typeName text) (var (.resolved t) x)
        (Expr.resolve env vars e).1 (Expr.resolve env (vars.insert x typeName) e').1 ∧
      (Expr.resolve env (vars.insert x typeName) e').2 = [] := by
  obtain ⟨t, known, belongs, hconst⟩ := resolve_const (h.found found)
  have declared : (vars.insert x typeName).get? x = some typeName := by
    rw [Directory.get?_insert, if_pos rfl]
  have agree : ∀ name, e.Uses name → vars.get? name = (vars.insert x typeName).get? name := by
    intro name hname
    have hne : name ≠ x := fun heq => unused (heq ▸ hname)
    rw [Directory.get?_insert, if_neg hne]
  obtain ⟨hreplaces, hfound⟩ := h.resolve agree hconst (resolve_var declared known) rfl
  exact ⟨t, known, belongs, hreplaces, hfound ▸ found⟩

/-! ### Readiness -/

/-- Readiness does not look below a node, so that of the leaves decides. -/
theorem Replaces.ready_iff {mode : Mode} (h : Replaces c d e e')
    (hcd : (∀ n ∈ c.nodes, n.ReadyFor mode) ↔ ∀ n ∈ d.nodes, n.ReadyFor mode) :
    (∀ n ∈ e.nodes, n.ReadyFor mode) ↔ ∀ n ∈ e'.nodes, n.ReadyFor mode := by
  induction h with
  | here => exact hcd
  | group below ih =>
    simp only [nodes_group, List.flatMap_append, List.flatMap_cons, List.forall_mem_append,
      List.forall_mem_singleton, readyFor_group, ih]
  | @op slot name before e e' after r below ih =>
    have hself : (Expr.op slot name (before ++ e :: after) r).ReadyFor mode ↔
        (Expr.op slot name (before ++ e' :: after) r).ReadyFor mode := Iff.rfl
    simp only [nodes_op, List.flatMap_append, List.flatMap_cons, List.forall_mem_append,
      List.forall_mem_singleton, hself, ih]

end Expr

/-! ### Direct evaluation -/

namespace Direct

open Compile Formula.Expr

variable {ctx : Context} {a a' : Assignment}

theorem nodes_congr {cs cs' : List Expr}
    (h : List.Forall₂ (fun c c' => node ctx a c = node ctx a' c') cs cs')
    (targets : List ConcreteType) : nodes ctx a cs targets = nodes ctx a' cs' targets := by
  induction h generalizing targets with
  | nil => simp [nodes]
  | cons hc _ ih =>
    cases targets with
    | nil => simp [nodes]
    | cons target targets => simp only [nodes, hc, ih]

/-- Direct evaluation looks at the values of the variables that occur, and of no others. -/
theorem node_congr {e : Expr} (h : ∀ name, e.Uses name → a.value? name = a'.value? name) :
    node ctx a e = node ctx a' e := by
  induction e with
  | var slot name => simp only [node, variableValue, h name (uses_var.2 rfl)]
  | const slot v typeName text => rfl
  | group slot cs ih =>
    rcases cs with _ | ⟨c, _ | ⟨d, cs⟩⟩
    · simp [node]
    · rw [node, node]
      exact ih c (by simp) fun name hn => h name (uses_group.2 ⟨c, by simp, hn⟩)
    · simp [node]
  | op slot name cs r ih =>
    have hcs : List.Forall₂ (fun c c' => node ctx a c = node ctx a' c') cs cs :=
      List.forall₂_same.2 fun c hc => ih c hc fun name hn => h name (uses_op.2 ⟨c, hc, hn⟩)
    simp only [node, nodes_congr hcs]

/-- If a leaf has the value of another, an expression with it in the other's place has the value
that it has with the other, provided that it has a type. -/
theorem node_replaces {env : Environment} {vars : VariableTypes} {c d e e' : Expr} {t : MathType}
    (h : Replaces c d e e') (he : e.HasType env vars t)
    (agree : ∀ name, e.Uses name → a.value? name = a'.value? name)
    (hcd : node ctx a c = node ctx a' d) : node ctx a e = node ctx a' e' := by
  induction h generalizing t with
  | here => exact hcd
  | @group slot before e e' after below ih =>
    generalize hcs : before ++ e :: after = cs at he
    cases he with
    | @group c t child =>
      -- the place is in the only child
      have honly : before = [] ∧ e = c ∧ after = [] := by
        rw [List.append_eq_singleton_iff] at hcs
        simpa using hcs
      obtain ⟨rfl, rfl, rfl⟩ := honly
      rw [List.nil_append, node, node]
      exact ih child fun name hn => agree name (uses_group.2 ⟨e, by simp, hn⟩)
  | @op slot name before e e' after r below ih =>
    generalize hcs : before ++ e :: after = cs at he
    cases he with
    | @op _ _ ts r length operands choice =>
      subst hcs
      obtain ⟨u, hzip⟩ := exists_mem_zip length (c := e) (by simp)
      have hself : node ctx a e = node ctx a' e' :=
        ih (operands e u hzip) fun name hn => agree name (uses_op.2 ⟨e, by simp, hn⟩)
      have hbeside : ∀ n ∈ before ++ e :: after, node ctx a n = node ctx a' n :=
        fun n hn => node_congr fun name hname => agree name (uses_op.2 ⟨n, hn, hname⟩)
      have hcs : List.Forall₂ (fun c c' => node ctx a c = node ctx a' c') (before ++ e :: after)
          (before ++ e' :: after) := by
        refine List.rel_append (List.forall₂_same.2 fun n hn => ?_)
          (.cons hself (List.forall₂_same.2 fun n hn => ?_))
        · exact hbeside n (by simp [hn])
        · exact hbeside n (by simp [hn])
      have hchosen : chosen ctx.options.mode
          (.op (.resolved r.overload.result) name (before ++ e :: after) (some r)) =
          chosen ctx.options.mode
            (.op (.resolved r.overload.result) name (before ++ e' :: after) (some r)) := rfl
      simp only [node, nodes_congr hcs, hchosen]

/-- A constant has the value of a variable that is given it, if that is received in each
representation as what it is carried to. -/
theorem node_const_eq_node_var {env : Environment} {options : CompileOptions} {t : MathType}
    {v : Value} {x typeName : String} {text : Option String} (casts : options.casts = true)
    (given : a'.value? x = some v)
    (taken : ∀ target, t.representation? options.mode = some target →
      ∃ source k, t.representation? env.config.defaultMode = some source ∧
        env.casts.concreteCast? source target = some k ∧
        received options.typechecks (k.conversion?.map (Lift.mk source)) target x v =
          .ok (k.carry v)) :
    node (env.compileContext options) a (.const (.resolved t) v typeName text) =
      node (env.compileContext options) a' (.var (.resolved t) x) := by
  have htype : typeOf (.const (.resolved t) v typeName text) = .ok t := rfl
  have htype' : typeOf (.var (.resolved t) x) = .ok t := rfl
  rw [node, node, htype, htype', Except.ok_bind, Except.ok_bind, Environment.compileContext_options]
  cases htarget : t.representation? options.mode with
  | none => simp [representation, htarget]
  | some target =>
    obtain ⟨source, k, hsource, hk, hreceived⟩ := taken target htarget
    have hlifted : representation t (env.compileContext options).defaultMode = .ok source :=
      representation_eq_ok.2 hsource
    have hbetween : castBetween (env.compileContext options) source target = .ok k :=
      castBetween_eq_ok.2 hk
    simp only [literal, variableValue, variableConversion, Environment.compileContext_options,
      casts, if_true, given, representation_eq_ok.2 htarget, hlifted, hbetween, Except.ok_bind,
      pure_bind, hreceived]

end Direct

/-! ### Values given to a variable -/

namespace Assignment

variable {exported : List String} {arguments : List Value} {scope : Scope} {x : String} {v : Value}

theorem lookup_zip_eq_none (h : x ∉ exported) : (exported.zip arguments).lookup x = none := by
  rw [List.lookup_eq_none_iff]
  rintro ⟨name, w⟩ hmem
  have hne : x ≠ name := fun heq => h (heq ▸ (List.of_mem_zip hmem).1)
  simpa using hne

theorem value?_insert_self (h : x ∉ exported) :
    value? { exported, arguments, scope := scope.insert x v } x = some v := by
  rw [value?, lookup_zip_eq_none h, Directory.get?_insert, if_pos rfl]
  rfl

theorem value?_insert_of_ne {name : String} (h : name ≠ x) :
    value? { exported, arguments, scope := scope.insert x v } name =
      value? { exported, arguments, scope } name := by
  rw [value?, value?, Directory.get?_insert, if_neg h]

end Assignment

end Formula
