import Formula.Expr.Resolve
import Formula.Expr.Traversal
import Mathlib.Data.List.Forall2
import Mathlib.Tactic.TFAE
/-!
What resolving types does to an expression, told without the pass that does it: when a node has a
type, what is stored at it and which nodes are reported. The main statement is
`resolve_characterisation`.
-/

namespace Formula

namespace Expr

/-- What holds of a node if it holds of the nodes directly below it holds of every expression. -/
@[elab_as_elim, induction_eliminator]
theorem childInduction {motive : Expr → Prop}
    (group : ∀ slot cs, (∀ c ∈ cs, motive c) → motive (group slot cs))
    (var : ∀ slot name, motive (var slot name))
    (const : ∀ slot value typeName text, motive (const slot value typeName text))
    (op : ∀ slot name cs resolution, (∀ c ∈ cs, motive c) → motive (op slot name cs resolution))
    (e : Expr) : motive e :=
  @Expr.rec motive (fun cs => ∀ c ∈ cs, motive c) group var const op
    (by simp) (fun _ _ hc hcs => List.forall_mem_cons.2 ⟨hc, hcs⟩) e

/-! ### The nodes of an expression -/

/-- The nodes of an expression, children first. -/
def nodes (e : Expr) : List Expr :=
  (postorder 0 e).map (·.2)

theorem postorderAll_eq_flatMap (depth : Nat) (es : List Expr) :
    postorderAll depth es = es.flatMap (postorder depth) := by
  induction es with
  | nil => rfl
  | cons e es ih => simp [postorderAll, ih]

theorem map_snd_postorder (depth depth' : Nat) (e : Expr) :
    (postorder depth e).map (·.2) = (postorder depth' e).map (·.2) := by
  induction e generalizing depth depth' with
  | var | const => simp [postorder]
  | group slot cs ih | op slot name cs resolution ih =>
    -- only the depths that are listed depend on where the walk starts
    simp only [postorder, postorderAll_eq_flatMap, List.map_append, List.map_flatMap]
    congr 1
    exact List.flatMap_congr fun c hc => ih c hc _ _

@[simp] theorem nodes_var (slot : TypeSlot) (name : String) :
    nodes (var slot name) = [var slot name] := rfl

@[simp] theorem nodes_const (slot : TypeSlot) (v : Value) (n : String) (text : Option String) :
    nodes (const slot v n text) = [const slot v n text] := rfl

@[simp] theorem nodes_group (slot : TypeSlot) (cs : List Expr) :
    nodes (group slot cs) = cs.flatMap nodes ++ [group slot cs] := by
  simp only [nodes, postorder, postorderAll_eq_flatMap, List.map_append, List.map_flatMap]
  congr 1
  exact List.flatMap_congr fun c _ => map_snd_postorder _ _ c

@[simp] theorem nodes_op (slot : TypeSlot) (name : String) (cs : List Expr)
    (r : Option Resolution) :
    nodes (op slot name cs r) = cs.flatMap nodes ++ [op slot name cs r] := by
  simp only [nodes, postorder, postorderAll_eq_flatMap, List.map_append, List.map_flatMap]
  congr 1
  exact List.flatMap_congr fun c _ => map_snd_postorder _ _ c

theorem self_mem_nodes (e : Expr) : e ∈ nodes e := by
  cases e <;> simp

/-! ### Nodes with types and nodes without -/

variable (env : Environment) (vars : VariableTypes)

/-- The name of the type that a variable is given. -/
def variableTypeName (name : String) : String :=
  (vars.get? name).getD env.config.defaultVariableType

/-- When a node has a type, and which overload is stored at it. -/
def Settled : Expr → Prop
  | group slot cs => ∀ t, slot = .resolved t ↔ ∃ c, cs = [c] ∧ c.slot = .resolved t
  | var slot name =>
    ∀ t, slot = .resolved t ↔ env.types.mathematical.get? (variableTypeName env vars name) = some t
  | const slot v typeName _ =>
    ∀ t, slot = .resolved t ↔ env.types.mathematical.get? typeName = some t ∧
      ∀ c, t.representation? env.config.defaultMode = some c → c.complaint v = none
  | op slot name cs resolution =>
    (∀ r, resolution = some r ↔ ∃ ts,
      cs.map Expr.slot = ts.map TypeSlot.resolved ∧ env.resolveOperator name ts = .ok r) ∧
    ∀ t, slot = .resolved t ↔ ∃ r, resolution = some r ∧ r.overload.result = t

/-- Whether a node fails for a reason of its own: a leaf without a type, a group that has not one
child, or an operator without a type though all its operands have one. -/
def FailsAlone : Expr → Bool
  | group _ cs => cs.length != 1
  | var slot _ => slot.type?.isNone
  | const slot _ _ _ => slot.type?.isNone
  | op slot _ cs _ => slot.type?.isNone && cs.all (·.type?.isSome)

/-- What is found wrong with a node that fails alone. -/
inductive Reports : Expr → Finding → Prop
  | group {slot cs} (h : cs.length ≠ 1) : Reports (group slot cs)
      (.malformed ("a group must have exactly one child, found " ++ toString cs.length))
  | var {slot name e} (h : env.types.mathType (variableTypeName env vars name) = .error e) :
      Reports (var slot name) (.refused e (some ("variable `" ++ name ++ "`")))
  | constType {slot v typeName text e} (h : env.types.mathType typeName = .error e) :
      Reports (const slot v typeName text) (.refused e (some ("constant " ++ v.text)))
  | constValue {slot v typeName text t c why} (ht : env.types.mathType typeName = .ok t)
      (hc : t.representation? env.config.defaultMode = some c) (hv : c.complaint v = some why) :
      Reports (const slot v typeName text) (.malformed
        ("constant " ++ v.text ++ " is not a valid " ++ typeName ++ ": " ++ why))
  | op {slot name cs r ts e} (hts : cs.map Expr.slot = ts.map TypeSlot.resolved)
      (h : env.resolveOperator name ts = .error e) :
      Reports (op slot name cs r) (.refused e none)

end Expr

/-! ### Slots -/

theorem TypeSlot.type?_eq_some {s : TypeSlot} {t : MathType} :
    s.type? = some t ↔ s = .resolved t := by
  cases s <;> simp [TypeSlot.type?]

theorem TypeRegistry.mathType_eq_ok {r : TypeRegistry} {name : String} {t : MathType} :
    r.mathType name = .ok t ↔ r.mathematical.get? name = some t := by
  unfold mathType
  split <;> simp_all

namespace Expr

theorem mapM_type?_eq_some {cs : List Expr} {ts : List MathType} :
    cs.mapM type? = some ts ↔ cs.map slot = ts.map TypeSlot.resolved := by
  induction cs generalizing ts with
  | nil => simp [eq_comm]
  | cons c cs ih =>
    cases ts with
    | nil => simp [List.mapM_cons, Option.bind_eq_some_iff]
    | cons t ts =>
      simp only [List.mapM_cons, List.map_cons, List.cons.injEq, ← ih, ← TypeSlot.type?_eq_some]
      cases h : type? c <;> cases h' : cs.mapM type? <;> simp_all [type?]

theorem mapM_type?_eq_none {cs : List Expr} :
    cs.mapM type? = none ↔ cs.all (·.type?.isSome) = false := by
  induction cs with
  | nil => simp
  | cons c cs ih =>
    cases h : type? c <;> cases h' : cs.mapM type? <;> simp_all [List.mapM_cons]

variable (env : Environment) (vars : VariableTypes)

theorem resolveAll_fst (es : List Expr) :
    (resolveAll env vars es).1 = es.map fun e => (resolve env vars e).1 := by
  induction es with
  | nil => rfl
  | cons e es ih => simp [resolveAll, ih]

theorem resolveAll_snd (es : List Expr) :
    (resolveAll env vars es).2 = es.flatMap fun e => (resolve env vars e).2 := by
  induction es with
  | nil => rfl
  | cons e es ih => simp [resolveAll, ih]

/-! ### One node -/

variable {env vars}

/-- What resolving makes of one node when it is done with the nodes below. -/
structure Resolves (env : Environment) (vars : VariableTypes) (node : Expr)
    (found : List Finding) : Prop where
  visited : node.slot ≠ .pending
  settled : Settled env vars node
  reported : List.Forall₂ (Reports env vars) ([node].filter FailsAlone) found

theorem reported_nil {n : Expr} (h : FailsAlone n = false) :
    List.Forall₂ (Reports env vars) ([n].filter FailsAlone) [] := by
  simp [h]

theorem reported_singleton {n : Expr} {f : Finding} (h : FailsAlone n = true)
    (hf : Reports env vars n f) :
    List.Forall₂ (Reports env vars) ([n].filter FailsAlone) [f] := by
  simp [h, hf]

theorem resolves_var (name : String) :
    Resolves env vars (var (resolveVariable env vars name).1 name)
      (resolveVariable env vars name).2 := by
  unfold resolveVariable
  cases h : env.types.mathType ((vars.get? name).getD env.config.defaultVariableType) with
  | ok t =>
    have hg := TypeRegistry.mathType_eq_ok.1 h
    refine ⟨by simp [slot], fun u => ?_, reported_nil rfl⟩
    simp [variableTypeName, hg]
  | error e =>
    refine ⟨by simp [slot], fun u => ?_, reported_singleton rfl (.var h)⟩
    simp [variableTypeName, ← TypeRegistry.mathType_eq_ok, h]

theorem constantComplaint_eq_none {t : MathType} {v : Value} :
    constantComplaint env t v = none ↔
      ∀ c, t.representation? env.config.defaultMode = some c → c.complaint v = none := by
  simp [constantComplaint, Option.bind_eq_none_iff]

theorem resolves_const (v : Value) (typeName : String) (text : Option String) :
    Resolves env vars (const (resolveConstant env v typeName).1 v typeName text)
      (resolveConstant env v typeName).2 := by
  cases h : env.types.mathType typeName with
  | error e =>
    simp only [resolveConstant, h]
    refine ⟨by simp [slot], fun u => ?_, reported_singleton rfl (.constType h)⟩
    simp [← TypeRegistry.mathType_eq_ok, h]
  | ok t =>
    have hg := TypeRegistry.mathType_eq_ok.1 h
    -- the type is known: what is left is whether the value belongs to it
    cases hc : constantComplaint env t v with
    | none =>
      simp only [resolveConstant, h, hc]
      refine ⟨by simp [slot], fun u => ?_, reported_nil rfl⟩
      rw [hg]
      constructor
      · rintro ⟨⟩
        exact ⟨rfl, constantComplaint_eq_none.1 hc⟩
      · rintro ⟨⟨⟩, -⟩
        rfl
    | some why =>
      obtain ⟨c, hr, hw⟩ := Option.bind_eq_some_iff.1 hc
      simp only [resolveConstant, h, hc]
      refine ⟨by simp [slot], fun u => ?_, reported_singleton rfl (.constValue h hr hw)⟩
      simp only [hg, Option.some.injEq, reduceCtorEq, false_iff, not_and]
      rintro rfl hn
      simp [hn c hr] at hw

theorem resolves_group {cs : List Expr} (hcs : ∀ c ∈ cs, c.slot ≠ .pending) :
    Resolves env vars (group (resolveGroup cs).1 cs) (resolveGroup cs).2 := by
  match cs with
  | [c] =>
    refine ⟨hcs c (by simp), fun t => ?_, reported_nil rfl⟩
    simp [resolveGroup]
  | [] =>
    exact ⟨by simp [slot, resolveGroup], fun t => by simp [resolveGroup],
      reported_singleton rfl (.group (by simp))⟩
  | a :: b :: cs =>
    exact ⟨by simp [slot, resolveGroup], fun t => by simp [resolveGroup],
      reported_singleton (by simp [FailsAlone]) (.group (by simp))⟩

theorem resolves_op (name : String) (cs : List Expr) :
    Resolves env vars
      (op (resolveOperator env name cs).1 name cs (resolveOperator env name cs).2.1)
      (resolveOperator env name cs).2.2 := by
  cases hm : cs.mapM type? with
  | none =>
    simp only [resolveOperator, hm]
    refine ⟨by simp [slot], ⟨fun r => ?_, by simp⟩,
      reported_nil (by simp [FailsAlone, mapM_type?_eq_none.1 hm])⟩
    simp [← mapM_type?_eq_some, hm]
  | some ts =>
    have hts := mapM_type?_eq_some.1 hm
    have hall : cs.all (·.type?.isSome) = true := by
      rw [← Bool.not_eq_false, ← mapM_type?_eq_none, hm]
      simp
    cases hr : env.resolveOperator name ts with
    | ok r =>
      simp only [resolveOperator, hm, hr]
      refine ⟨by simp [slot], ⟨fun q => ?_, fun t => by simp⟩, reported_nil rfl⟩
      simp [← mapM_type?_eq_some, hm, hr]
    | error e =>
      simp only [resolveOperator, hm, hr]
      refine ⟨by simp [slot], ⟨fun q => ?_, by simp⟩,
        reported_singleton (by simp [FailsAlone, TypeSlot.type?, hall]) (.op hts hr)⟩
      simp [← mapM_type?_eq_some, hm, hr]

/-! ### The whole expression -/

theorem resolve_group (slot : TypeSlot) (cs : List Expr) :
    let cs' := cs.map fun c => (resolve env vars c).1
    resolve env vars (group slot cs) = (group (resolveGroup cs').1 cs',
      (cs.flatMap fun c => (resolve env vars c).2) ++ (resolveGroup cs').2) := by
  simp [resolve, resolveAll_fst, resolveAll_snd]

theorem resolve_op (slot : TypeSlot) (name : String) (cs : List Expr) (r : Option Resolution) :
    let cs' := cs.map fun c => (resolve env vars c).1
    let found := resolveOperator env name cs'
    resolve env vars (op slot name cs r) = (op found.1 name cs' found.2.1,
      (cs.flatMap fun c => (resolve env vars c).2) ++ found.2.2) := by
  simp [resolve, resolveAll_fst, resolveAll_snd]

theorem bareAll_eq_map (es : List Expr) : bareAll es = es.map bare := by
  induction es with
  | nil => rfl
  | cons e es ih => simp [bareAll, ih]

theorem bare_resolve (e : Expr) : (resolve env vars e).1.bare = e.bare := by
  induction e with
  | var | const => rfl
  | group slot cs ih =>
    rw [resolve_group]
    simpa [bare, bareAll_eq_map] using ih
  | op slot name cs r ih =>
    rw [resolve_op]
    simpa [bare, bareAll_eq_map] using ih

theorem settled_resolve (e : Expr) :
    ∀ n ∈ nodes (resolve env vars e).1, n.slot ≠ .pending ∧ Settled env vars n := by
  induction e with
  | var slot name =>
    have h : Resolves env vars _ _ := resolves_var name
    simpa [resolve] using ⟨h.visited, h.settled⟩
  | const slot v typeName text =>
    have h : Resolves env vars _ _ := resolves_const v typeName text
    simpa [resolve] using ⟨h.visited, h.settled⟩
  | group slot cs ih =>
    -- a group takes over the slot of its child, which must have been visited
    have hcs : ∀ c ∈ cs.map fun c => (resolve env vars c).1, c.slot ≠ .pending :=
      List.forall_mem_map.2 fun c hc => (ih c hc _ (self_mem_nodes _)).1
    have h : Resolves env vars _ _ := resolves_group hcs
    rw [resolve_group]
    intro n hn
    simp only [nodes_group, List.mem_append, List.mem_flatMap, List.mem_map,
      List.mem_singleton] at hn
    rcases hn with ⟨_, ⟨c, hc, rfl⟩, hn⟩ | rfl
    · exact ih c hc n hn
    · exact ⟨h.visited, h.settled⟩
  | op slot name cs r ih =>
    have h : Resolves env vars _ _ := resolves_op name (cs.map fun c => (resolve env vars c).1)
    rw [resolve_op]
    intro n hn
    simp only [nodes_op, List.mem_append, List.mem_flatMap, List.mem_map,
      List.mem_singleton] at hn
    rcases hn with ⟨_, ⟨c, hc, rfl⟩, hn⟩ | rfl
    · exact ih c hc n hn
    · exact ⟨h.visited, h.settled⟩

theorem reported_flatMap {cs : List Expr} {f : Expr → Expr} {found : Expr → List Finding}
    (h : ∀ c ∈ cs, List.Forall₂ (Reports env vars) ((nodes (f c)).filter FailsAlone) (found c)) :
    List.Forall₂ (Reports env vars) (((cs.map f).flatMap nodes).filter FailsAlone)
      (cs.flatMap found) := by
  induction cs with
  | nil => simp
  | cons c cs ih =>
    rw [List.forall_mem_cons] at h
    simp only [List.map_cons, List.flatMap_cons, List.filter_append]
    exact List.rel_append h.1 (ih h.2)

theorem reports_resolve (e : Expr) :
    List.Forall₂ (Reports env vars) ((nodes (resolve env vars e).1).filter FailsAlone)
      (resolve env vars e).2 := by
  induction e with
  | var slot name => exact (resolves_var name).reported
  | const slot v typeName text => exact (resolves_const v typeName text).reported
  | group slot cs ih =>
    rw [resolve_group]
    simp only [nodes_group, List.filter_append]
    exact List.rel_append (reported_flatMap ih) (resolves_group <| List.forall_mem_map.2
      fun c _ => (settled_resolve c _ (self_mem_nodes _)).1).reported
  | op slot name cs r ih =>
    rw [resolve_op]
    simp only [nodes_op, List.filter_append]
    exact List.rel_append (reported_flatMap ih) (resolves_op name _).reported

theorem slot_of_map_eq {cs : List Expr} {ts : List MathType}
    (h : cs.map slot = ts.map TypeSlot.resolved) {c : Expr} (hc : c ∈ cs) : c.type?.isSome := by
  obtain ⟨t, -, ht⟩ := List.mem_map.1 (h ▸ List.mem_map_of_mem hc)
  simp [type?, ← ht, TypeSlot.type?]

/-- In a settled expression types reach the root only if they are everywhere. -/
theorem all_typed_of_settled {e : Expr} (hs : ∀ n ∈ nodes e, Settled env vars n)
    (ht : e.type?.isSome) : ∀ n ∈ nodes e, n.type?.isSome := by
  induction e with
  | var | const => simpa using ht
  | group slot cs ih =>
    obtain ⟨t, ht'⟩ := Option.isSome_iff_exists.1 ht
    obtain ⟨c, rfl, hc⟩ := (hs _ (self_mem_nodes _) t).1 (TypeSlot.type?_eq_some.1 ht')
    have hbelow := ih c (by simp) (fun n hn => hs n (by simp [hn]))
      (by simp [type?, hc, TypeSlot.type?])
    intro n hn
    rcases List.mem_append.1 (nodes_group .. ▸ hn) with hn | hn
    · exact hbelow n (by simpa using hn)
    · rwa [List.mem_singleton.1 hn]
  | op slot name cs r ih =>
    obtain ⟨t, ht'⟩ := Option.isSome_iff_exists.1 ht
    obtain ⟨hr, hslot⟩ := hs _ (self_mem_nodes _)
    -- an overload is stored, and so all operands had types to choose it by
    obtain ⟨q, rfl, -⟩ := (hslot t).1 (TypeSlot.type?_eq_some.1 ht')
    obtain ⟨ts, hts, -⟩ := (hr q).1 rfl
    intro n hn
    rcases List.mem_append.1 (nodes_op .. ▸ hn) with hn | hn
    · obtain ⟨c, hc, hn⟩ := List.mem_flatMap.1 hn
      have hbelow : ∀ m ∈ nodes c, Settled env vars m :=
        fun m hm => hs m (by simp; exact .inl ⟨c, hc, hm⟩)
      exact ih c hc hbelow (slot_of_map_eq hts hc) n hn
    · rwa [List.mem_singleton.1 hn]

theorem typed_of_no_failure {e : Expr} (hs : ∀ n ∈ nodes e, Settled env vars n)
    (hf : ∀ n ∈ nodes e, FailsAlone n = false) : e.type?.isSome := by
  induction e with
  | var slot name | const slot v typeName text =>
    have h := hf _ (self_mem_nodes _)
    simpa [FailsAlone, type?, Expr.slot] using h
  | group slot cs ih =>
    have hlen : cs.length = 1 := by simpa [FailsAlone] using hf _ (self_mem_nodes _)
    obtain ⟨c, rfl⟩ := List.length_eq_one_iff.1 hlen
    have hc := ih c (by simp) (fun n hn => hs n (by simp [hn])) (fun n hn => hf n (by simp [hn]))
    obtain ⟨t, ht⟩ := Option.isSome_iff_exists.1 hc
    have hslot := (hs _ (self_mem_nodes _) t).2 ⟨c, rfl, TypeSlot.type?_eq_some.1 ht⟩
    simp [type?, Expr.slot, hslot, TypeSlot.type?]
  | op slot name cs r ih =>
    have hcs : cs.all (·.type?.isSome) = true := List.all_eq_true.2 fun c hc =>
      ih c hc (fun n hn => hs n (by simp; exact .inl ⟨c, hc, hn⟩))
        (fun n hn => hf n (by simp; exact .inl ⟨c, hc, hn⟩))
    have h := hf _ (self_mem_nodes _)
    rw [FailsAlone, hcs, Bool.and_true] at h
    simpa [type?, Expr.slot] using h

theorem no_failure_of_typed {e : Expr} (hs : ∀ n ∈ nodes e, Settled env vars n)
    (ht : e.type?.isSome) : ∀ n ∈ nodes e, FailsAlone n = false := by
  intro n hn
  have hn' := all_typed_of_settled hs ht n hn
  obtain ⟨t, ht⟩ := Option.isSome_iff_exists.1 hn'
  cases n with
  | var slot name | const slot v typeName text | op slot name cs r =>
    simp_all [FailsAlone, type?, Expr.slot]
  | group slot cs =>
    obtain ⟨c, rfl, -⟩ := (hs _ hn t).1 (TypeSlot.type?_eq_some.1 ht)
    rfl

theorem findings_eq_nil_iff (e : Expr) :
    (resolve env vars e).2 = [] ↔ (resolve env vars e).1.type?.isSome := by
  have hs : ∀ n ∈ nodes (resolve env vars e).1, Settled env vars n :=
    fun n hn => (settled_resolve e n hn).2
  -- there are as many findings as nodes that fail alone
  have hlen := (@reports_resolve env vars e).length_eq
  rw [← List.length_eq_zero_iff, ← hlen, List.length_eq_zero_iff, List.filter_eq_nil_iff]
  simp only [Bool.not_eq_true]
  exact ⟨typed_of_no_failure hs, no_failure_of_typed hs⟩

end Expr

/-! ### The outcome -/

theorem Finding.isError_diagnostic (f : Finding) : f.diagnostic.isError = true := by
  rcases f with ⟨e, _ | context⟩ | message <;> rfl

namespace Outcome

theorem find?_diagnostics (o : Outcome) :
    o.diagnostics.find? (·.isError) = o.diagnostics.head? := by
  cases o with | mk fs => cases fs <;> simp [diagnostics, Finding.isError_diagnostic]

theorem hasErrors_eq_false {o : Outcome} : o.hasErrors = false ↔ o.findings = [] := by
  cases o with | mk fs => cases fs <;> simp [hasErrors, diagnostics, Finding.isError_diagnostic]

theorem result_eq_ok {o : Outcome} : o.result = .ok () ↔ o.findings = [] := by
  unfold result
  rw [find?_diagnostics]
  cases o with
  | mk fs =>
    cases fs with
    | nil => simp [errors, diagnostics]
    | cons f fs => split <;> simp [diagnostics]

theorem result_eq_error {o : Outcome} {err : Error} :
    o.result = .error err ↔ o.errors.head? = some err ∨
      o.errors = [] ∧ ∃ d, o.diagnostics.head? = some d ∧ err = .generic d.text := by
  unfold result
  rw [find?_diagnostics]
  cases o.errors with
  | cons e es => simp
  | nil => cases o.diagnostics.head? <;> simp [eq_comm]

end Outcome

open Formula.Expr in
/-- Resolving leaves an expression as written, visits every node and settles it: a variable or a
constant has its type if that is registered (and the constant belongs to it), a group that of its
only child, an operator that of the overload chosen for its operands. The diagnostics are those of
the nodes that fail alone, one each, children first. Without any, and only then, types are
everywhere; otherwise the first error that a registry raised stands for all of them. -/
theorem Environment.resolve_characterisation (env : Environment) (vars : VariableTypes) (e : Expr) :
    (env.resolve vars e).1.bare = e.bare ∧
    (∀ n ∈ nodes (env.resolve vars e).1, n.slot ≠ .pending ∧ Settled env vars n) ∧
    (∃ found, List.Forall₂ (Reports env vars)
        ((nodes (env.resolve vars e).1).filter FailsAlone) found ∧
      (env.resolve vars e).2.diagnostics = found.map (·.diagnostic) ∧
      (env.resolve vars e).2.errors = found.filterMap (·.error?)) ∧
    List.TFAE [
      ∃ t, (env.resolve vars e).1.slot = .resolved t,
      ∀ n ∈ nodes (env.resolve vars e).1, ∃ t, n.slot = .resolved t,
      (env.resolve vars e).2.diagnostics = [],
      (env.resolve vars e).2.hasErrors = false,
      (env.resolve vars e).2.result = .ok ()] ∧
    ∀ err, (env.resolve vars e).2.result = .error err ↔
      (env.resolve vars e).2.errors.head? = some err ∨
      (env.resolve vars e).2.errors = [] ∧
        ∃ d, (env.resolve vars e).2.diagnostics.head? = some d ∧ err = .generic d.text := by
  have typed : ∀ n : Expr, (∃ t, n.slot = .resolved t) ↔ n.type?.isSome := fun n => by
    simp [Option.isSome_iff_exists, type?, TypeSlot.type?_eq_some]
  have found : (env.resolve vars e).2.findings = (Expr.resolve env vars e).2 := rfl
  refine ⟨bare_resolve e, settled_resolve e, ⟨_, reports_resolve e, rfl, rfl⟩, ?_,
    fun _ => Outcome.result_eq_error⟩
  simp only [typed]
  tfae_have 1 → 2 := all_typed_of_settled fun n hn => (settled_resolve e n hn).2
  tfae_have 2 → 1 := fun h => h _ (self_mem_nodes _)
  tfae_have 1 ↔ 4 := by
    rw [Outcome.hasErrors_eq_false, found, findings_eq_nil_iff]
    rfl
  tfae_have 3 ↔ 4 := by
    rw [Outcome.hasErrors_eq_false]
    simp [Outcome.diagnostics]
  tfae_have 4 ↔ 5 := by rw [Outcome.hasErrors_eq_false, Outcome.result_eq_ok]
  tfae_finish

end Formula
