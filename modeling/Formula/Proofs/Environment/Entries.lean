import Formula.Proofs.Environment.Reachable
/-!
What a request does, once and for all kinds of it: one that fails leaves the environment as it was,
and one that succeeds gives back an entry and does one of the few things that `Enters` lists. So
what each of these keeps holds of every environment that requests lead to: conversions stand under
the names of their own types, and the types of an evaluator are named as the representations of the
types of its overload.
-/

namespace Formula

/-! ### Types -/

namespace TypeRegistry

/-- The concrete type is the one registered under its name. -/
def Holds (r : TypeRegistry) (c : ConcreteType) : Prop :=
  ∃ known, r.concrete.get? c.name = some known ∧ known.sameDefinition c = true

variable {r r' : TypeRegistry}

theorem checkRepresentation_eq_ok {t : MathType} {mode : Mode} {c : ConcreteType} :
    r.checkRepresentation t mode c = .ok () ↔ r.Holds c := by
  unfold checkRepresentation Holds
  simp only [Except.bind_eq_ok, concreteType_eq_ok]
  refine exists_congr fun known => and_congr_right fun _ => ?_
  split <;> simp_all

theorem checkRepresentations_eq_ok {t : MathType} :
    (t.representations.entries.forM fun e => r.checkRepresentation t e.1 e.2) = .ok () ↔
      ∀ e ∈ t.representations.entries, r.Holds e.2 := by
  simp only [Except.forM_eq_ok, checkRepresentation_eq_ok]

theorem registerConcrete_cases {c d : ConcreteType} (h : r.registerConcrete c = .ok (d, r')) :
    (r.concrete.get? d.name = some d ∧ r' = r) ∨
    (r.concrete.get? c.name = none ∧ d = c ∧
      r' = { r with concrete := r.concrete.insert c.name c }) := by
  unfold registerConcrete at h
  split at h
  · rename_i known hknown
    split at h
    · rename_i hsame
      cases h
      have hname : d.name = c.name := by
        simp only [ConcreteType.sameDefinition, Bool.and_eq_true, beq_iff_eq] at hsame
        exact hsame.1.1
      exact .inl ⟨hname ▸ hknown, rfl⟩
    · cases h
  · rename_i hnone
    cases h
    exact .inr ⟨hnone, rfl, rfl⟩

theorem registerMath_cases {t u : MathType} (h : r.registerMath t = .ok (u, r')) :
    (r.mathematical.get? u.name = some u ∧ r' = r) ∨
    (r.mathematical.get? t.name = none ∧ (∀ e ∈ t.representations.entries, r.Holds e.2) ∧ u = t ∧
      r' = { r with mathematical := r.mathematical.insert t.name t }) := by
  unfold registerMath at h
  obtain ⟨⟨⟩, hchecks, h⟩ := Except.bind_eq_ok.1 h
  split at h
  · rename_i known hknown
    split at h
    · rename_i hsame
      cases h
      have hname : u.name = t.name := by
        simp only [MathType.sameDefinition, Bool.and_eq_true, beq_iff_eq] at hsame
        exact hsame.1
      exact .inl ⟨hname ▸ hknown, rfl⟩
    · cases h
  · rename_i hnone
    cases h
    exact .inr ⟨hnone, checkRepresentations_eq_ok.1 hchecks, rfl, rfl⟩

/-- To define a type by names is to register it with the types of these names. -/
theorem defineMath_eq_ok {name : String} {representations : List (Mode × String)} {u : MathType}
    (h : r.defineMath name representations = .ok (u, r')) :
    ∃ t, t.name = name ∧ r.registerMath t = .ok (u, r') := by
  unfold defineMath at h
  obtain ⟨t, ht, h⟩ := Except.bind_eq_ok.1 h
  refine ⟨t, ?_, h⟩
  refine Except.foldlM_induction (P := fun t => t.name = name) ht rfl fun e _ t t' hname hstep => ?_
  obtain ⟨c, -, hstep⟩ := Except.bind_eq_ok.1 hstep
  cases hstep
  exact hname

end TypeRegistry

namespace Overload

/-- The overload is one that can be made. Its place among the overloads of the operator is given to
it when it is registered. -/
def Proper (o : Overload) : Prop :=
  ({ o with rank := 0 } : Overload).Formed

theorem Formed.rank_eq_zero {o : Overload} (h : o.Formed) : o.rank = 0 := by
  induction h with
  | bare => rfl
  | attach _ attached ih =>
    obtain ⟨-, -, rfl⟩ := attach_eq_ok attached
    exact ih

theorem Formed.proper {o : Overload} (h : o.Formed) (rank : Nat) :
    ({ o with rank } : Overload).Proper := by
  have hrank := h.rank_eq_zero
  cases o
  cases hrank
  exact h

theorem Proper.represented {o : Overload} (h : o.Proper) : o.Represented :=
  ⟨Formed.represented h |>.arguments, Formed.represented h |>.result⟩

end Overload

/-! ### Requests -/

/-- What a registration gives back: a definition that is built, or what stands in a registry for
it. -/
inductive Entry where
  | built (c : ConcreteType)
  | concreteType (c : ConcreteType)
  | mathType (t : MathType)
  | mathCast (c : MathCast)
  | concreteCast (c : ConcreteCast)
  | overload (o : Overload)

open Registration in
/-- The registration that is asked for, with what it gives back. -/
def Request.entry : Request → Registration Entry
  | buildConcreteType p => .built <$> Registration.buildConcreteType p
  | concreteType c => .concreteType <$> registerConcreteType c
  | mathType t => .mathType <$> registerMathType t
  | defineMathType name representations =>
    .mathType <$> Registration.defineMathType name representations
  | mathCast c => .mathCast <$> registerMathCast c
  | defineMathCast source target => .mathCast <$> Registration.defineMathCast source target
  | concreteCast e => .concreteCast <$> registerConcreteCast e
  | defineConcreteCast s => .concreteCast <$> Registration.defineConcreteCast s
  | overload o _ => .overload <$> registerOverload o
  | defineOverload s => .overload <$> Registration.defineOverload s

namespace Environment

/-- What a request that succeeds makes of an environment, and the entry that it gives back. A type
that is known is given back as it stands; anything else is entered in one registry. -/
inductive Enters (env : Environment) : Entry → Environment → Prop
  | built (c : ConcreteType) : Enters env (.built c) { env with nextStamp := env.nextStamp + 1 }
  | knownConcreteType {c} (known : env.types.concrete.get? c.name = some c) :
      Enters env (.concreteType c) env
  | concreteType {c} (new : env.types.concrete.get? c.name = none) :
      Enters env (.concreteType c)
        { env with types := { env.types with concrete := env.types.concrete.insert c.name c } }
  | knownMathType {t} (known : env.types.mathematical.get? t.name = some t) :
      Enters env (.mathType t) env
  | mathType {t} (new : env.types.mathematical.get? t.name = none)
      (represented : ∀ e ∈ t.representations.entries, env.types.Holds e.2) :
      Enters env (.mathType t) { env with
        types := { env.types with mathematical := env.types.mathematical.insert t.name t } }
  | mathCast {c} (apart : c.source.name ≠ c.target.name) :
      Enters env (.mathCast c) { env with casts := { env.casts with
        mathematical := CastRegistry.enter env.casts.mathematical c.source.name c.target.name c } }
  | concreteCast {c} (apart : c.source.name ≠ c.target.name) :
      Enters env (.concreteCast c) { env with casts := { env.casts with
        concrete := CastRegistry.enter env.casts.concrete c.source.name c.target.name c } }
  | overload {o} (formed : o.Formed) :
      Enters env (.overload (env.operators.register o).1)
        { env with operators := (env.operators.register o).2 }

end Environment

namespace Registration

variable {α β : Type} {env env' : Environment}

theorem run_map (f : α → β) (m : Registration α) (env : Environment) :
    (f <$> m).run env = ((m.run env).1.map f, (m.run env).2) := by
  rw [map_eq_pure_bind, run_bind]
  rcases m.run env with ⟨e | x, env'⟩ <;> rfl

/-- A registration fails without a change, or does with its entry what is listed. -/
def Accounted (tag : α → Entry) (m : Registration α) : Prop :=
  ∀ env, (∃ err, m.run env = (.error err, env)) ∨
    ∃ x env', m.run env = (.ok x, env') ∧ env.Enters (tag x) env'

theorem accounted_step {tag : α → Entry} {f : Environment → Except Error (α × Environment)}
    (hf : ∀ env x env', f env = .ok (x, env') → env.Enters (tag x) env') :
    Accounted tag (step f) := by
  intro env
  rw [run_step]
  cases hfe : f env with
  | error err => exact .inl ⟨err, rfl⟩
  | ok p => exact .inr ⟨p.1, p.2, rfl, hf env p.1 p.2 hfe⟩

/-- What only looks at the environment may come before. -/
theorem accounted_bind {tag : β → Entry} {m : Registration α} {f : α → Registration β}
    (hm : ∀ env, (m.run env).2 = env)
    (hf : ∀ env x, (m.run env).1 = .ok x → Accounted tag (f x)) : Accounted tag (m >>= f) := by
  intro env
  obtain ⟨result, hrun⟩ : ∃ result, m.run env = (result, env) := ⟨_, Prod.ext rfl (hm env)⟩
  rw [run_bind, hrun]
  cases result with
  | error err => exact .inl ⟨err, rfl⟩
  | ok x => exact hf env x (by rw [hrun]) env

/-- What every entry keeps is kept by a registration that makes no others. -/
theorem keeps_of_accounted {tag : α → Entry} {m : Registration α} {P : Environment → Prop}
    (accounted : Accounted tag m)
    (kept : ∀ {env env'} x, env.Enters (tag x) env' → P env → P env') :
    m.Keeps P fun _ => True := by
  intro env henv
  rcases accounted env with ⟨err, hrun⟩ | ⟨x, env', hrun, henters⟩ <;> rw [hrun]
  · exact ⟨henv, fun _ _ => trivial⟩
  · exact ⟨kept x henters henv, fun _ _ => trivial⟩

/-! ### Single registrations -/

theorem accounted_buildConcreteType (p : ConcreteType.Parts) :
    Accounted .built (buildConcreteType p) := by
  refine accounted_step fun env c env' h => ?_
  simp only [Except.bind_eq_ok, Except.pure_eq_ok, Prod.mk.injEq] at h
  obtain ⟨c, -, rfl, rfl⟩ := h
  exact .built c

theorem accounted_registerConcreteType (c : ConcreteType) :
    Accounted .concreteType (registerConcreteType c) := by
  refine accounted_step fun env d env' h => ?_
  simp only [Except.bind_eq_ok, Except.pure_eq_ok, Prod.mk.injEq] at h
  obtain ⟨⟨d, types⟩, htypes, rfl, rfl⟩ := h
  rcases TypeRegistry.registerConcrete_cases htypes with ⟨hknown, rfl⟩ | ⟨hnew, rfl, rfl⟩
  · exact .knownConcreteType hknown
  · exact .concreteType hnew

theorem enters_mathType {t u : MathType} {types : TypeRegistry}
    (h : env.types.registerMath t = .ok (u, types)) :
    env.Enters (.mathType u) { env with types } := by
  rcases TypeRegistry.registerMath_cases h with ⟨hknown, rfl⟩ | ⟨hnew, hreps, rfl, rfl⟩
  · exact .knownMathType hknown
  · exact .mathType hnew hreps

theorem accounted_registerMathType (t : MathType) :
    Accounted .mathType (registerMathType t) := by
  refine accounted_step fun env u env' h => ?_
  simp only [Except.bind_eq_ok, Except.pure_eq_ok, Prod.mk.injEq] at h
  obtain ⟨⟨u, types⟩, htypes, rfl, rfl⟩ := h
  exact enters_mathType htypes

theorem accounted_defineMathType (name : String) (representations : List (Mode × String)) :
    Accounted .mathType (defineMathType name representations) := by
  refine accounted_step fun env u env' h => ?_
  simp only [Except.bind_eq_ok, Except.pure_eq_ok, Prod.mk.injEq] at h
  obtain ⟨⟨u, types⟩, htypes, rfl, rfl⟩ := h
  obtain ⟨t, -, ht⟩ := TypeRegistry.defineMath_eq_ok htypes
  exact enters_mathType ht

theorem accounted_registerMathCast (c : MathCast) : Accounted .mathCast (registerMathCast c) := by
  refine accounted_step fun env d env' h => ?_
  simp only [Except.bind_eq_ok, Except.pure_eq_ok, Prod.mk.injEq,
    CastRegistry.registerMath_iff] at h
  obtain ⟨_, ⟨hapart, rfl⟩, rfl, rfl⟩ := h
  exact .mathCast hapart

theorem accounted_defineMathCast (source target : String) :
    Accounted .mathCast (defineMathCast source target) := by
  refine accounted_bind (fun env => ?_) fun _ c _ => accounted_registerMathCast c
  unfold mathCastBetween
  rw [run_step]
  cases env.types.mathType source with
  | error err => rfl
  | ok s => cases env.types.mathType target <;> rfl

theorem accounted_registerConcreteCast (e : Evaluator) :
    Accounted .concreteCast (registerConcreteCast e) := by
  refine accounted_step fun env c env' h => ?_
  simp only [Except.bind_eq_ok, Except.pure_eq_ok, Prod.mk.injEq,
    CastRegistry.registerConcrete_iff] at h
  obtain ⟨c, -, _, ⟨hapart, rfl⟩, rfl, rfl⟩ := h
  exact .concreteCast hapart

theorem run_lift (x : Except Error α) (env : Environment) :
    (liftM x : Registration α).run env = (x, env) := by
  cases x <;> rfl

theorem accounted_defineConcreteCast (s : Evaluator.Spec) :
    Accounted .concreteCast (defineConcreteCast s) := by
  refine accounted_bind (fun _ => rfl) fun env _ _ => ?_
  refine accounted_bind (fun _ => ?_) fun _ e _ => accounted_registerConcreteCast e
  rw [run_lift]

theorem accounted_registerOverload {o : Overload} (formed : o.Formed) :
    Accounted .overload (registerOverload o) := by
  refine accounted_step fun env p env' h => ?_
  cases h
  exact .overload formed

theorem accounted_defineOverload (s : Overload.Spec) :
    Accounted .overload (defineOverload s) := by
  refine accounted_bind (fun _ => rfl) fun _ env _ => ?_
  refine accounted_bind (fun _ => ?_) fun _ o ho => accounted_registerOverload ?_
  · rw [run_lift]
  · rw [run_lift] at ho
    exact Overload.Spec.formed_build ho

end Registration

namespace Request

open Registration

variable {env env' : Environment}

theorem entry_run (r : Request) (env : Environment) :
    (∃ err, r.entry.run env = (.error err, env)) ∨
      ∃ e env', r.entry.run env = (.ok e, env') ∧ env.Enters e env' := by
  have tagged : ∀ {α : Type} {tag : α → Entry} {m : Registration α}, Accounted tag m →
      (∃ err, (tag <$> m).run env = (.error err, env)) ∨
        ∃ e env', (tag <$> m).run env = (.ok e, env') ∧ env.Enters e env' := by
    intro α tag m h
    rw [run_map]
    rcases h env with ⟨err, hm⟩ | ⟨x, env', hm, henters⟩ <;> rw [hm]
    · exact .inl ⟨err, rfl⟩
    · exact .inr ⟨tag x, env', rfl, henters⟩
  cases r with
  | buildConcreteType p => exact tagged (accounted_buildConcreteType p)
  | concreteType c => exact tagged (accounted_registerConcreteType c)
  | mathType t => exact tagged (accounted_registerMathType t)
  | defineMathType name rs => exact tagged (accounted_defineMathType name rs)
  | mathCast c => exact tagged (accounted_registerMathCast c)
  | defineMathCast source target => exact tagged (accounted_defineMathCast source target)
  | concreteCast e => exact tagged (accounted_registerConcreteCast e)
  | defineConcreteCast s => exact tagged (accounted_defineConcreteCast s)
  | overload o formed => exact tagged (accounted_registerOverload formed)
  | defineOverload s => exact tagged (accounted_defineOverload s)

/-- What is given back makes no difference to what is done. -/
theorem after_eq (r : Request) (env : Environment) : env.after r = (r.entry.run env).2 := by
  have discarded : ∀ {α : Type} (tag : α → Entry) (m : Registration α),
      ((discard m : Registration Unit).run env).2 = ((tag <$> m).run env).2 := by
    intro α tag m
    rw [run_map]
    change ((m >>= fun _ => pure PUnit.unit).run env).2 = _
    rw [run_bind]
    rcases m.run env with ⟨_ | _, _⟩ <;> rfl
  cases r <;> exact discarded _ _

theorem error_run {r : Request} {err : Error} (h : (r.entry.run env).1 = .error err) :
    (r.entry.run env).2 = env := by
  rcases r.entry_run env with ⟨_, hrun⟩ | ⟨e, env', hrun, -⟩ <;> rw [hrun] at h ⊢
  exact nomatch h

end Request

/-- What holds at first and is kept by whatever is entered holds of all environments that requests
lead to. -/
theorem Environment.Reachable.entered {P : Environment → Prop} (empty : ∀ config, P { config })
    (kept : ∀ {env e env'}, env.Enters e env' → P env → P env') {env : Environment}
    (h : env.Reachable) : P env := by
  induction h with
  | empty config => exact empty config
  | @after env _ r ih =>
    rcases r.entry_run env with ⟨err, hrun⟩ | ⟨e, env', hrun, henters⟩
    · rwa [r.after_eq, hrun]
    · rw [r.after_eq, hrun]
      exact kept henters ih

/-! ### What environments have in common -/

namespace Environment

/-- Every conversion stands under the names of its types, and every evaluator is between
representations of the types of its overload. -/
structure Coherent (env : Environment) : Prop where
  entered : ∀ source target c, CastRegistry.find? env.casts.concrete source target = some c →
    c.source.name = source ∧ c.target.name = target
  represented : ∀ name, ∀ o ∈ env.operators.candidates name, o.Represented

namespace Coherent

theorem empty (config : Config) : Coherent { config } :=
  ⟨fun _ _ _ h => (nomatch h), fun _ _ h => (nomatch h)⟩

/-- A conversion is entered under the names of its own types, and an overload with evaluators that
were checked against its types. -/
theorem kept {env env' : Environment} {e : Entry} (enters : env.Enters e env')
    (h : env.Coherent) : env'.Coherent := by
  cases enters with
  | concreteCast =>
    refine ⟨fun source target c hc => ?_, h.represented⟩
    rcases CastRegistry.find?_enter_eq_some hc with ⟨rfl, rfl, rfl⟩ | hc
    · exact ⟨rfl, rfl⟩
    · exact h.entered source target c hc
  | overload formed =>
    refine ⟨h.entered, fun name p hp => ?_⟩
    rcases OperatorRegistry.mem_candidates_register hp with hp | ⟨rank, rfl⟩
    · exact h.represented name p hp
    · exact (formed.proper rank).represented
  | built | knownConcreteType | concreteType | knownMathType | mathType | mathCast =>
    exact ⟨h.entered, h.represented⟩

end Coherent

theorem Reachable.coherent {env : Environment} (h : env.Reachable) : env.Coherent :=
  h.entered Coherent.empty Coherent.kept

end Environment

end Formula
