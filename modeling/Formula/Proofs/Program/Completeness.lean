import Formula.Proofs.Environment.History
import Formula.Proofs.Program.Outcome
import Formula.Proofs.Program.WellFormed
/-!
That a program leaves nothing out. Operands are compiled side by side with the arguments of an
evaluator, so that those beyond its arity would be passed over, with whatever is wrong in them; but
an evaluator has as many arguments as its overload. Compilation therefore comes by every node, and
complains of a missing type if and only if there is one.
-/

namespace Formula

namespace Expr

/-- A node has its type, and with it a group its only child and an operator its overload. -/
def Complete : Expr → Prop
  | group slot cs => (∃ t, slot = .resolved t) ∧ cs.length = 1
  | var slot _ => ∃ t, slot = .resolved t
  | const slot _ _ _ => ∃ t, slot = .resolved t
  | op slot _ _ r => (∃ t, slot = .resolved t) ∧ r.isSome

/-- The overload that is stored at an operator, if there is one, is one that can be made and takes
as many arguments as the operator has operands. -/
def Stored : Expr → Prop
  | op _ _ cs (some r) => r.overload.Proper ∧ r.overload.arguments.length = cs.length
  | _ => True

theorem Complete.typed {e : Expr} (h : e.Complete) : ∃ t, e.slot = .resolved t := by
  cases e with
  | var slot name => exact h
  | const slot v typeName text => exact h
  | group slot cs => exact h.1
  | op slot name cs r => exact h.1

theorem complete_iff_of_settled {env : Environment} {vars : VariableTypes} {n : Expr}
    (h : Settled env vars n) : n.Complete ↔ n.type?.isSome := by
  have typed : ∀ s : TypeSlot, (∃ t, s = .resolved t) ↔ s.type?.isSome := fun s => by
    simp [Option.isSome_iff_exists, TypeSlot.type?_eq_some]
  cases n with
  | var slot name => exact typed slot
  | const slot v typeName text => exact typed slot
  | group slot cs =>
    refine Iff.trans (and_iff_left_of_imp ?_) (typed slot)
    rintro ⟨t, ht⟩
    obtain ⟨c, rfl, -⟩ := (h t).1 ht
    rfl
  | op slot name cs r =>
    refine Iff.trans (and_iff_left_of_imp ?_) (typed slot)
    rintro ⟨t, ht⟩
    obtain ⟨q, rfl, -⟩ := (h.2 t).1 ht
    rfl

/-- Resolving an expression without errors leaves all its nodes complete. -/
theorem complete_resolve {env : Environment} {vars : VariableTypes} {e : Expr}
    (h : (env.resolve vars e).2.hasErrors = false) :
    ∀ n ∈ (env.resolve vars e).1.nodes, n.Complete := by
  have hs : ∀ n ∈ (resolve env vars e).1.nodes, Settled env vars n :=
    fun n hn => (settled_resolve e n hn).2
  have hroot := (findings_eq_nil_iff e).1 (Outcome.hasErrors_eq_false.1 h)
  exact fun n hn => (complete_iff_of_settled (hs n hn)).2 (all_typed_of_settled hs hroot n hn)

/-- Resolving an expression stores nothing else than registered overloads that take the operands. -/
theorem stored_resolve {env : Environment} (h : env.Reachable) (vars : VariableTypes) (e : Expr) :
    ∀ n ∈ (env.resolve vars e).1.nodes, n.Stored := by
  intro n hn
  have hsettled : Settled env vars n := (settled_resolve e n hn).2
  cases n with
  | op slot name cs r =>
    cases r with
    | none => trivial
    | some r =>
      obtain ⟨ts, hslots, hr⟩ := (hsettled.1 r).1 rfl
      obtain ⟨hmem, hcasts⟩ := OperatorRegistry.resolve_eq_ok hr
      have hlength : cs.length = ts.length := by simpa using congrArg List.length hslots
      exact ⟨(h.consistent.overloads name _ hmem).2,
        (Overload.length_eq_of_casts? hcasts).symm.trans hlength.symm⟩
  | _ => trivial

end Expr

theorem Overload.Proper.length_arguments {o : Overload} (proper : o.Proper) {mode : Mode}
    {e : Evaluator} (h : o.evaluator? mode = some e) :
    e.arguments.length = o.arguments.length :=
  (proper.represented.arguments mode e h).length_eq.symm

namespace Compile

variable {ctx : Context} {b b' : Build}

/-! ### What is compiled is complete -/

/-- Operands that are as many as the arguments they are compiled for are all compiled. -/
theorem nodes_complete {cs : List Expr} {targets : List ConcreteType} {xs : List Operand}
    (ih : ∀ c ∈ cs, ∀ b r b', (node ctx c).run b = .ok (r, b') → ∀ n ∈ c.nodes, n.Complete)
    (length : cs.length = targets.length) (h : (nodes ctx cs targets).run b = .ok (xs, b')) :
    ∀ n ∈ cs.flatMap Expr.nodes, n.Complete := by
  induction cs generalizing targets b xs with
  | nil => simp
  | cons c cs ih' =>
    cases targets with
    | nil => simp at length
    | cons target targets =>
      rw [List.forall_mem_cons] at ih
      obtain ⟨x, source, b₁, a, b₂, as, hnode, -, hnodes, -⟩ := nodes_cons_run h
      have hhead := ih.1 b _ _ hnode
      have htail := ih' ih.2 (by simpa using length) hnodes
      intro n hn
      rw [List.flatMap_cons, List.mem_append] at hn
      exact hn.elim (hhead n) (htail n)

/-- The first that is asked for of an expression is its type. -/
theorem node_eq_typeOf_bind (ctx : Context) (e : Expr) :
    ∃ f : MathType → Compiler (Bound × ConcreteType), node ctx e = liftM (typeOf e) >>= f := by
  cases e <;> unfold node <;> exact ⟨_, rfl⟩

theorem node_typed {e : Expr} {r : Bound × ConcreteType} (h : (node ctx e).run b = .ok (r, b')) :
    ∃ t, e.slot = .resolved t := by
  obtain ⟨f, hf⟩ := node_eq_typeOf_bind ctx e
  rw [hf] at h
  obtain ⟨t, _, ht, -⟩ := run_bind_eq_ok.1 h
  exact ⟨t, TypeSlot.type?_eq_some.1 (typeOf_eq_ok.1 (run_liftM_eq_ok.1 ht).1)⟩

theorem node_group_single {slot : TypeSlot} {cs : List Expr} {r : Bound × ConcreteType}
    (h : (node ctx (.group slot cs)).run b = .ok (r, b')) : ∃ c, cs = [c] := by
  unfold node at h
  obtain ⟨_, b₁, -, h⟩ := run_bind_eq_ok.1 h
  rcases cs with _ | ⟨c, _ | ⟨d, cs⟩⟩
  · cases h
  · exact ⟨c, rfl⟩
  · cases h

theorem node_op_chosen {slot : TypeSlot} {name : String} {cs : List Expr} {q : Option Resolution}
    {r : Bound × ConcreteType} (h : (node ctx (.op slot name cs q)).run b = .ok (r, b')) :
    ∃ p, q = some p := by
  rw [node] at h
  obtain ⟨_, b₁, -, h⟩ := run_bind_eq_ok.1 h
  obtain ⟨p, b₂, hchosen, -⟩ := run_bind_eq_ok.1 h
  cases q with
  | none => cases (run_liftM_eq_ok.1 hchosen).1
  | some p => exact ⟨p, rfl⟩

/-- An expression that is compiled is complete, whatever had been bound before. -/
theorem node_complete {e : Expr} (stored : ∀ n ∈ e.nodes, n.Stored) {r : Bound × ConcreteType}
    (h : (node ctx e).run b = .ok (r, b')) : ∀ n ∈ e.nodes, n.Complete := by
  induction e generalizing b b' r with
  | var slot name =>
    intro n hn
    rw [List.mem_singleton.1 hn]
    exact node_typed h
  | const slot v typeName text =>
    intro n hn
    rw [List.mem_singleton.1 hn]
    exact node_typed h
  | group slot cs ih =>
    obtain ⟨c, rfl⟩ := node_group_single h
    have hbelow := ih c (by simp) (fun n hn => stored n (by simp [hn])) (node_group_run h)
    intro n hn
    rcases List.mem_append.1 (Expr.nodes_group .. ▸ hn) with hn | hn
    · exact hbelow n (by simpa using hn)
    · rw [List.mem_singleton.1 hn]
      exact ⟨node_typed h, rfl⟩
  | op slot name cs q ih =>
    obtain ⟨q, rfl⟩ := node_op_chosen h
    obtain ⟨e, xs, b₁, i, hevaluator, hnodes, -, -⟩ := node_op_run h
    obtain ⟨proper, length⟩ : q.overload.Proper ∧ q.overload.arguments.length = cs.length :=
      stored _ (Expr.self_mem_nodes _)
    have hchildren : ∀ c ∈ cs, ∀ b r b', (node ctx c).run b = .ok (r, b') →
        ∀ n ∈ c.nodes, n.Complete := fun c hc b r b' hrun =>
      ih c hc (fun n hn => stored n (by simp; exact .inl ⟨c, hc, hn⟩)) hrun
    have hbelow := nodes_complete hchildren
      (length.symm.trans (proper.length_arguments hevaluator).symm) hnodes
    intro n hn
    rcases List.mem_append.1 (Expr.nodes_op .. ▸ hn) with hn | hn
    · exact hbelow n hn
    · rw [List.mem_singleton.1 hn]
      exact ⟨node_typed h, rfl⟩

/-! ### What is complete is not complained of -/

/-- A result other than the complaint that a type is missing. -/
def Blameless {α : Type} (o : Except Error α) : Prop :=
  ∀ text, o ≠ .error (.unresolved text)

/-- A step of compilation that never complains of a missing type. -/
def Untroubled {α : Type} (m : Compiler α) : Prop :=
  ∀ b, Blameless (m.run b)

section Untroubled

variable {α β : Type}

theorem Blameless.bind {o : Except Error α} {f : α → Except Error β} (ho : Blameless o)
    (hf : ∀ x, Blameless (f x)) : Blameless (o >>= f) := by
  cases o with
  | error err =>
    rintro text ⟨⟩
    exact ho text rfl
  | ok x => exact hf x

theorem blameless_ok (x : α) : Blameless (.ok x) :=
  fun _ h => nomatch h

theorem Untroubled.bind {m : Compiler α} {f : α → Compiler β} (hm : Untroubled m)
    (hf : ∀ x, Untroubled (f x)) : Untroubled (m >>= f) := by
  intro b
  rw [StateT.run_bind]
  exact (hm b).bind fun p => hf p.1 p.2

theorem Blameless.lift {o : Except Error α} (h : Blameless o) : Untroubled (liftM o : Compiler α) :=
  fun _ => h.bind fun _ => blameless_ok _

theorem Succeeds.untroubled {m : Compiler α} (h : Succeeds m) : Untroubled m := by
  intro b
  obtain ⟨x, b', hrun⟩ := h b
  rw [hrun]
  exact blameless_ok _

end Untroubled

theorem blameless_typeOf {e : Expr} (h : e.Complete) : Blameless (typeOf e) := by
  obtain ⟨t, ht⟩ := h.typed
  rw [typeOf_eq_ok.2 (TypeSlot.type?_eq_some.2 ht)]
  exact blameless_ok t

theorem blameless_representation (t : MathType) (mode : Mode) :
    Blameless (representation t mode) := by
  unfold representation
  split <;> exact fun _ h => nomatch h

theorem blameless_castBetween (source target : ConcreteType) :
    Blameless (castBetween ctx source target) := by
  unfold castBetween
  split <;> exact fun _ h => nomatch h

theorem blameless_literal (t : MathType) (target : ConcreteType) (v : Value) :
    Blameless (literal ctx t target v) :=
  (blameless_representation t _).bind fun source =>
    (blameless_castBetween source target).bind fun _ => blameless_ok _

theorem blameless_variableConversion (t : MathType) (target : ConcreteType) :
    Blameless (variableConversion ctx t target) := by
  unfold variableConversion
  split
  · exact (blameless_representation t _).bind fun source =>
      (blameless_castBetween source target).bind fun _ => blameless_ok _
  · exact blameless_ok none

theorem blameless_chosen (mode : Mode) (slot : TypeSlot) (name : String) (cs : List Expr)
    (r : Resolution) : Blameless (chosen mode (.op slot name cs (some r))) := by
  simp only [chosen, Expr.resolution?]
  split <;>
  · intro _ h
    cases h

theorem variableSlot_untroubled (name : String) (t : MathType) (target : ConcreteType) :
    Untroubled (variableSlot ctx name t target) := by
  refine succeeds_get.untroubled.bind fun b => ?_
  split
  · exact (succeeds_pure _).untroubled
  · refine (blameless_variableConversion t target).lift.bind fun _ => ?_
    exact ((bind_succeeds _ _).bind fun _ => (succeeds_modify _).bind fun _ =>
      succeeds_pure _).untroubled

theorem operand_untroubled (x : Bound) (source target : ConcreteType) :
    Untroubled (operand ctx x source target) := by
  refine (blameless_castBetween source target).lift.bind fun c => ?_
  cases c with
  | identity => exact (keep_succeeds x).untroubled
  | convert c =>
    cases x with
    | literal v => exact (keepConstant_succeeds _).untroubled
    | slot i => exact ((conversionSlot_succeeds _ _ _).bind fun _ => succeeds_pure _).untroubled

theorem nodes_untroubled {cs : List Expr} (ih : ∀ c ∈ cs, Untroubled (node ctx c))
    (targets : List ConcreteType) : Untroubled (nodes ctx cs targets) := by
  induction cs generalizing targets with
  | nil =>
    rw [nodes]
    · exact (succeeds_pure _).untroubled
    · simp
  | cons c cs ih' =>
    cases targets with
    | nil =>
      rw [nodes]
      · exact (succeeds_pure _).untroubled
      · simp
    | cons target targets =>
      rw [List.forall_mem_cons] at ih
      rw [nodes]
      refine ih.1.bind fun r => (operand_untroubled _ _ _).bind fun a => ?_
      exact (ih' ih.2 targets).bind fun _ => (succeeds_pure _).untroubled

/-- Of a complete expression no node is complained of. -/
theorem node_untroubled {e : Expr} (complete : ∀ n ∈ e.nodes, n.Complete) :
    Untroubled (node ctx e) := by
  have hroot := complete e (Expr.self_mem_nodes e)
  induction e with
  | var slot name =>
    rw [node]
    refine (blameless_typeOf hroot).lift.bind fun t => ?_
    refine (blameless_representation t _).lift.bind fun target => ?_
    exact (variableSlot_untroubled name t target).bind fun _ => (succeeds_pure _).untroubled
  | const slot v typeName text =>
    rw [node]
    refine (blameless_typeOf hroot).lift.bind fun t => ?_
    refine (blameless_representation t _).lift.bind fun target => ?_
    exact (blameless_literal t target v).lift.bind fun _ => (succeeds_pure _).untroubled
  | group slot cs ih =>
    obtain ⟨c, rfl⟩ := List.length_eq_one_iff.1 hroot.2
    have hchild : ∀ n ∈ c.nodes, n.Complete := fun n hn => complete n (by simp [hn])
    rw [node]
    refine (blameless_typeOf hroot).lift.bind fun _ => ?_
    exact ih c (by simp) hchild (hchild c (Expr.self_mem_nodes c))
  | op slot name cs r ih =>
    obtain ⟨r, rfl⟩ := Option.isSome_iff_exists.1 hroot.2
    have hchildren : ∀ c ∈ cs, Untroubled (node ctx c) := by
      intro c hc
      have hchild : ∀ n ∈ c.nodes, n.Complete :=
        fun n hn => complete n (by simp; exact .inl ⟨c, hc, hn⟩)
      exact ih c hc hchild (hchild c (Expr.self_mem_nodes c))
    rw [node]
    refine (blameless_typeOf hroot).lift.bind fun _ => ?_
    refine (blameless_chosen _ slot name cs r).lift.bind fun q => ?_
    refine (nodes_untroubled hchildren q.2.arguments).bind fun xs => ?_
    exact ((applicationSlot_succeeds q.1 q.2 xs).bind fun _ => succeeds_pure _).untroubled

/-! ### Whole expressions -/

theorem blameless_program {e : Expr} (complete : ∀ n ∈ e.nodes, n.Complete) :
    Blameless (program ctx e) := by
  have h : Untroubled (node ctx e >>= fun r => keep r.1 >>= fun root =>
      (pure (root, r.2) : Compiler (Operand × ConcreteType))) :=
    (node_untroubled complete).bind fun r =>
      ((keep_succeeds r.1).bind fun _ => succeeds_pure _).untroubled
  exact (h {}).bind fun _ => blameless_ok _

/-- An expression whose type is not known is complained of itself, whatever is below. -/
theorem program_untyped {e : Expr} (h : e.type? = none) :
    program ctx e = .error (.unresolved e.text) := by
  have htype : typeOf e = .error (.unresolved e.text) := by simp [typeOf, h]
  obtain ⟨f, hf⟩ := node_eq_typeOf_bind ctx e
  unfold program
  rw [hf, htype]
  rfl

end Compile

namespace Environment

theorem compile_of_valid {env : Environment} {options : CompileOptions}
    (valid : options.validate = .ok ()) (e : Expr) :
    env.compile options e = (do
      let program ← Compile.program (env.compileContext options) e
      pure { mode := options.mode, program }) := by
  unfold compile
  rw [valid]
  rfl

/-- A unit is compiled from complete expressions only, whatever the slots of their nodes hold. What
has just been resolved is complained of for a missing type if and only if resolving it has found
errors, and an expression that was never resolved always is. -/
theorem compile_complete (env : Environment) (options : CompileOptions) :
    (∀ e : Expr, (∀ n ∈ e.nodes, n.Stored) → ∀ unit, env.compile options e = .ok unit →
      ∀ n ∈ e.nodes, n.Complete) ∧
    (options.validate = .ok () →
      (∀ vars e, (∃ text, env.compile options (env.resolve vars e).1 = .error (.unresolved text)) ↔
        (env.resolve vars e).2.hasErrors = true) ∧
      ∀ e : Expr, env.compile options e.bare = .error (.unresolved e.bare.text)) := by
  have untyped : ∀ e : Expr, options.validate = .ok () → e.type? = none →
      env.compile options e = .error (.unresolved e.text) := by
    intro e valid he
    rw [compile_of_valid valid, Compile.program_untyped he]
    rfl
  refine ⟨fun e stored unit compiled => ?_, fun valid => ⟨fun vars e => ?_, fun e => ?_⟩⟩
  · obtain ⟨x, b, root, b', hnode, -⟩ := Compile.program_eq_ok (compile_eq_ok compiled)
    exact Compile.node_complete stored hnode
  · cases herrors : (env.resolve vars e).2.hasErrors with
    | true =>
      refine iff_of_true ⟨_, untyped _ valid ?_⟩ rfl
      have hfound : (Expr.resolve env vars e).2 ≠ [] := fun h =>
        absurd (Outcome.hasErrors_eq_false.2 h) (by rw [herrors]; decide)
      rw [Ne, Expr.findings_eq_nil_iff, Option.not_isSome_iff_eq_none] at hfound
      exact hfound
    | false =>
      refine iff_of_false ?_ (by decide)
      rintro ⟨text, h⟩
      have hprogram : Compile.Blameless (Compile.program (env.compileContext options) _) :=
        Compile.blameless_program (Expr.complete_resolve herrors)
      rw [compile_of_valid valid] at h
      exact (hprogram.bind fun _ => Compile.blameless_ok _) text h
  · exact untyped _ valid (by cases e <;> rfl)

end Environment

namespace Sums

/-- A constant that was never resolved. -/
def pendingTwo : Expr :=
  .const .pending (.real 2) "real" none

/-- The resolved expression `x + x + 2` with another constant in place of `2`. -/
def patched : Expr :=
  match (env.resolve .empty twicePlusTwo).1 with
  | .op slot name (c :: _) r => .op slot name [c, pendingTwo] r
  | e => e

theorem patched_eq : ∃ slot c d r, (env.resolve .empty twicePlusTwo).1 = .op slot "+" [c, d] r ∧
    patched = .op slot "+" [c, pendingTwo] r :=
  ⟨_, _, _, _, rfl, rfl⟩

theorem stored_patched : ∀ n ∈ patched.nodes, n.Stored := by
  have hstored := Expr.stored_resolve reachable_env .empty twicePlusTwo
  obtain ⟨slot, c, d, r, hresolved, hpatched⟩ := patched_eq
  rw [hresolved] at hstored
  rw [hpatched]
  intro n hn
  simp only [Expr.nodes_op, List.mem_append, List.flatMap_cons, List.flatMap_nil] at hn hstored
  rcases hn with (hn | hn | hn) | hn
  · exact hstored n (.inl (.inl hn))
  · rw [List.mem_singleton.1 hn]
    trivial
  · cases hn
  · -- at the root is still the same overload, on as many operands
    have hroot := hstored (.op slot "+" [c, d] r) (.inr (List.mem_singleton_self _))
    rw [List.mem_singleton.1 hn]
    cases r with
    | none => trivial
    | some r => exact hroot

/-- What is resolved compiles and is complete. Neither the patched expression nor the one that was
never resolved compiles. -/
theorem compile_complete_patched :
    (∃ unit, env.compile {} (env.resolve .empty twicePlusTwo).1 = .ok unit) ∧
    (∀ n ∈ (env.resolve .empty twicePlusTwo).1.nodes, n.Complete) ∧
    (∀ unit, env.compile {} patched ≠ .ok unit) ∧
    env.compile {} twicePlusTwo.bare = .error (.unresolved twicePlusTwo.bare.text) := by
  obtain ⟨hcomplete, hvalid⟩ := Environment.compile_complete env {}
  obtain ⟨unit, hunit, -⟩ := wellFormed_twicePlusTwo
  refine ⟨⟨unit, hunit⟩, hcomplete _ (Expr.stored_resolve reachable_env _ _) unit hunit, ?_, ?_⟩
  · intro unit hunit
    obtain ⟨slot, c, d, r, -, hpatched⟩ := patched_eq
    have hmem : pendingTwo ∈ patched.nodes := by
      rw [hpatched]
      simp [pendingTwo]
    obtain ⟨t, ht⟩ := hcomplete _ stored_patched unit hunit _ hmem
    exact nomatch ht
  · exact (hvalid rfl).2 twicePlusTwo

end Sums

end Formula
