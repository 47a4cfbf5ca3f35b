import Formula.Proofs.Program.Outcome
/-!
What compilation for a mode needs. The conversions that choose an overload and those that move
values stand in two tables; where the second has a counterpart for all that the first can ask for,
an expression compiles for a mode as soon as its leaves are represented in it and its operators
evaluated.
-/

namespace Formula

/-! ### Operands -/

/-- Expressions can be operands of some types in a mode: each has a type that reaches the type of
its place, and what it is converted to represents that. -/
inductive Operands (env : Environment) (vars : VariableTypes) (mode : Mode) :
    List Expr → List MathType → List ConcreteType → Prop
  | nil : Operands env vars mode [] [] []
  | cons {c u t target cs ts targets} (typed : Expr.HasType env vars c u)
      (reached : (env.casts.mathCast? u t).isSome) (represents : Overload.Represents mode t target)
      (rest : Operands env vars mode cs ts targets) :
      Operands env vars mode (c :: cs) (t :: ts) (target :: targets)

variable {env : Environment} {vars : VariableTypes} {mode : Mode}

theorem operands_of_forall₂ {cs : List Expr} {us ts : List MathType} {targets : List ConcreteType}
    (typed : List.Forall₂ (Expr.HasType env vars) cs us)
    (reached : List.Forall₂ (fun u t => (env.casts.mathCast? u t).isSome) us ts)
    (represents : List.Forall₂ (Overload.Represents mode) ts targets) :
    Operands env vars mode cs ts targets := by
  induction typed generalizing ts targets with
  | nil =>
    cases reached
    cases represents
    exact .nil
  | cons typed _ ih =>
    cases reached with
    | cons reached hreached =>
      cases represents with
      | cons represents hrepresents =>
        exact .cons typed reached represents (ih hreached hrepresents)

/-- The children of an operator are operands of the evaluator that is chosen for it. -/
theorem operands_of_choice (coherent : env.Coherent) {name : String} {cs : List Expr}
    {us : List MathType} {r : Resolution} {e : Evaluator} (length : cs.length = us.length)
    (typed : ∀ c u, (c, u) ∈ cs.zip us → Expr.HasType env vars c u)
    (choice : env.resolveOperator name us = .ok r)
    (evaluator : r.overload.evaluator? mode = some e) :
    Operands env vars mode cs r.overload.arguments e.arguments := by
  obtain ⟨hmem, hcasts⟩ := OperatorRegistry.resolve_eq_ok choice
  exact operands_of_forall₂ (List.forall₂_iff_zip.2 ⟨length, fun h => typed _ _ h⟩)
    (Overload.reached_of_casts? hcasts)
    ((coherent.represented name _ hmem).arguments mode e evaluator)

theorem Environment.compileContext_options (env : Environment) (options : CompileOptions) :
    (env.compileContext options).options = options := rfl

theorem Environment.compileContext_casts (env : Environment) (options : CompileOptions) :
    (env.compileContext options).casts = env.casts := rfl

theorem Environment.compileContext_defaultMode (env : Environment) (options : CompileOptions) :
    (env.compileContext options).defaultMode = env.config.defaultMode := rfl

theorem CastRegistry.concreteCast?_congr (r : CastRegistry) {source source' target target' :
    ConcreteType} (hsource : source.name = source'.name) (htarget : target.name = target'.name) :
    r.concreteCast? source target = r.concreteCast? source' target' := by
  unfold concreteCast?
  rw [hsource, htarget]

/-! ### Harmony -/

namespace Environment

/-- The types that expressions can have: those that are registered and the results of overloads. -/
inductive Gives (env : Environment) : MathType → Prop
  | known {name t} (known : env.types.mathematical.get? name = some t) : Gives env t
  | result {name o} (candidate : o ∈ env.operators.candidates name) : Gives env o.result

/-- The two tables of conversions are in harmony: what a value of a registered type is given as can
be converted to every representation of the type, and where a type reaches an argument of an
overload, its representation does so in every mode that represents both. -/
structure Harmonious (env : Environment) : Prop where
  lifted : ∀ name t, env.types.mathematical.get? name = some t → ∀ mode c,
    t.representation? mode = some c → ∃ d, t.representation? env.config.defaultMode = some d ∧
      (env.casts.concreteCast? d c).isSome
  met : ∀ name, ∀ o ∈ env.operators.candidates name, ∀ t ∈ o.arguments, ∀ u, env.Gives u →
    (env.casts.mathCast? u t).isSome → ∀ mode c d, u.representation? mode = some c →
      t.representation? mode = some d → (env.casts.concreteCast? c d).isSome

end Environment

namespace Expr

theorem HasType.gives {e : Expr} {t : MathType} (h : e.HasType env vars t) : env.Gives t := by
  induction h with
  | group child ih => exact ih
  | var known => exact .known known
  | const known belongs => exact .known known
  | op length operands choice => exact .result (choice_spec length choice).1

/-- What a node needs for a mode: a leaf that its type is represented, an operator that its overload
has an evaluator. -/
def ReadyFor (mode : Mode) : Expr → Prop
  | group _ _ => True
  | var slot _ => ∀ t, slot = .resolved t → (t.representation? mode).isSome
  | const slot _ _ _ => ∀ t, slot = .resolved t → (t.representation? mode).isSome
  | op _ _ _ r => ∀ q, r = some q → (q.overload.evaluator? mode).isSome

@[simp] theorem readyFor_group {slot : TypeSlot} {cs : List Expr} :
    (group slot cs).ReadyFor mode :=
  trivial

@[simp] theorem readyFor_var {t : MathType} {name : String} :
    (var (.resolved t) name).ReadyFor mode ↔ (t.representation? mode).isSome := by
  simp [ReadyFor]

@[simp] theorem readyFor_const {t : MathType} {v : Value} {typeName : String}
    {text : Option String} :
    (const (.resolved t) v typeName text).ReadyFor mode ↔ (t.representation? mode).isSome := by
  simp [ReadyFor]

@[simp] theorem readyFor_op {slot : TypeSlot} {name : String} {cs : List Expr} {r : Resolution} :
    (op slot name cs (some r)).ReadyFor mode ↔ (r.overload.evaluator? mode).isSome := by
  simp [ReadyFor]

end Expr

namespace Compile

variable {options : CompileOptions}

/-- Compilation of an expression succeeds with a representation of its type if all its nodes are
ready; otherwise an evaluator or representation is what it says is missing. -/
def Settles (ctx : Context) (e : Expr) (t : MathType) : Prop :=
  ((∀ n ∈ e.nodes, n.ReadyFor ctx.options.mode) ∧
    ∃ c, outcome ctx e = .ok c ∧ Overload.Represents ctx.options.mode t c) ∨
  (¬ (∀ n ∈ e.nodes, n.ReadyFor ctx.options.mode) ∧
    ∃ subject, outcome ctx e = .error (.noEvaluator subject ctx.options.mode))

/-- What a registered type is given as is converted to any of its representations. -/
theorem castBetween_of_lifted (harmony : env.Harmonious) {name : String} {t : MathType}
    {target : ConcreteType} (known : env.types.mathematical.get? name = some t)
    (represented : t.representation? mode = some target) :
    ∃ source c, representation t env.config.defaultMode = .ok source ∧
      castBetween (env.compileContext options) source target = .ok c := by
  obtain ⟨d, hd, hcast⟩ := harmony.lifted name t known _ _ represented
  obtain ⟨c, hc⟩ := Option.isSome_iff_exists.1 hcast
  exact ⟨d, c, representation_eq_ok.2 hd, castBetween_eq_ok.2 hc⟩

theorem variableConversion_of_lifted (harmony : env.Harmonious) {name : String} {t : MathType}
    {target : ConcreteType} (known : env.types.mathematical.get? name = some t)
    (represented : t.representation? mode = some target) :
    ∃ conversion?, variableConversion (env.compileContext options) t target =
      .ok conversion? := by
  obtain ⟨source, c, hsource, hc⟩ :=
    @castBetween_of_lifted _ _ options harmony _ _ _ known represented
  have hsource : representation t (env.compileContext options).defaultMode = .ok source := hsource
  unfold variableConversion
  split
  · rw [hsource, Except.ok_bind, hc]
    exact ⟨_, rfl⟩
  · exact ⟨_, rfl⟩

theorem literal_of_lifted (harmony : env.Harmonious) {name : String} {t : MathType}
    {target : ConcreteType} (known : env.types.mathematical.get? name = some t)
    (represented : t.representation? mode = some target) (v : Value) :
    ∃ w, literal (env.compileContext options) t target v = .ok w := by
  obtain ⟨source, c, hsource, hc⟩ :=
    @castBetween_of_lifted _ _ options harmony _ _ _ known represented
  have hsource : representation t (env.compileContext options).defaultMode = .ok source := hsource
  unfold literal
  rw [hsource, Except.ok_bind, hc]
  exact ⟨_, rfl⟩

/-- A leaf needs a representation of its type and nothing else, if what it asks for then is
there. -/
theorem leaf_settles {α : Type} {ctx : Context} {e : Expr} {t : MathType}
    {f : ConcreteType → Except Error α} (alone : e.nodes = [e])
    (ready : e.ReadyFor ctx.options.mode ↔ (t.representation? ctx.options.mode).isSome)
    (asked : outcome ctx e = do
      let target ← representation t ctx.options.mode
      let _ ← f target
      pure target)
    (found : ∀ target, t.representation? ctx.options.mode = some target →
      ∃ x, f target = .ok x) : Settles ctx e t := by
  unfold Settles
  rw [asked, alone, List.forall_mem_singleton, ready]
  cases hrep : t.representation? ctx.options.mode with
  | none =>
    refine .inr ⟨by simp, "type " ++ t.name ++ " has no representation", ?_⟩
    rw [representation, hrep]
    rfl
  | some target =>
    obtain ⟨x, hx⟩ := found target hrep
    refine .inl ⟨rfl, target, ?_, target, hrep, rfl⟩
    rw [representation_eq_ok.2 hrep, Except.ok_bind, hx]
    rfl

/-- Operands are compiled if all of their nodes are ready: whatever they are compiled to reaches the
type of its place. -/
theorem outcomes_settle {ctx : Context} {cs : List Expr} {targets : List ConcreteType}
    (h : List.Forall₂ (fun c target => ∃ u, Settles ctx c u ∧
      ∀ source, Overload.Represents ctx.options.mode u source →
        (ctx.casts.concreteCast? source target).isSome) cs targets) :
    ((∀ n ∈ cs.flatMap Expr.nodes, n.ReadyFor ctx.options.mode) ∧
      outcomes ctx cs targets = .ok ()) ∨
    (¬ (∀ n ∈ cs.flatMap Expr.nodes, n.ReadyFor ctx.options.mode) ∧
      ∃ subject, outcomes ctx cs targets = .error (.noEvaluator subject ctx.options.mode)) := by
  induction h with
  | nil =>
    refine .inl ⟨by simp, ?_⟩
    rw [outcomes]
    · rfl
    · simp
  | @cons c target cs targets h _ ih =>
    obtain ⟨u, hsettles, hreaches⟩ := h
    rw [outcomes, List.flatMap_cons]
    simp only [List.forall_mem_append]
    rcases hsettles with ⟨ready, source, houtcome, represents⟩ | ⟨notReady, subject, houtcome⟩
    · obtain ⟨cast, hcast⟩ := Option.isSome_iff_exists.1 (hreaches source represents)
      rw [houtcome, Except.ok_bind, castBetween_eq_ok.2 hcast, Except.ok_bind]
      exact ih.imp (And.imp_left fun rest => ⟨ready, rest⟩)
        (And.imp_left fun notRest h => notRest h.2)
    · rw [houtcome]
      exact .inr ⟨fun h => notReady h.1, subject, rfl⟩

/-- In harmony the operands of an overload are compiled if all of their nodes are ready. -/
theorem operands_settle (harmony : env.Harmonious) {name : String} {o : Overload}
    (candidate : o ∈ env.operators.candidates name) {cs : List Expr} {ts : List MathType}
    {targets : List ConcreteType} (operands : Operands env vars options.mode cs ts targets)
    (settles : ∀ c ∈ cs, ∀ u, c.HasType env vars u → Settles (env.compileContext options) c u)
    (arguments : ∀ t ∈ ts, t ∈ o.arguments) :
    List.Forall₂ (fun c target => ∃ u, Settles (env.compileContext options) c u ∧
      ∀ source, Overload.Represents options.mode u source →
        (env.casts.concreteCast? source target).isSome) cs targets := by
  induction operands with
  | nil => exact .nil
  | @cons c u t target cs ts targets typed reached represents rest ih =>
    rw [List.forall_mem_cons] at settles arguments
    refine .cons ⟨u, settles.1 u typed, fun source hsource => ?_⟩ (ih settles.2 arguments.2)
    obtain ⟨a, ha, hname⟩ := hsource
    obtain ⟨b, hb, hname'⟩ := represents
    rw [← env.casts.concreteCast?_congr hname hname']
    exact harmony.met name o candidate t arguments.1 u typed.gives reached _ a b ha hb

/-- In harmony every expression that has a type settles. -/
theorem node_settles (harmony : env.Harmonious) (coherent : env.Coherent) {e : Expr} {t : MathType}
    (he : e.HasType env vars t) : Settles (env.compileContext options) e t := by
  induction he with
  | @group c t child ih =>
    have htype : typeOf (.group (.resolved t) [c]) = .ok t := rfl
    unfold Settles at ih ⊢
    rw [outcome, htype, Except.ok_bind, Expr.nodes_group]
    simpa only [List.flatMap_singleton, List.forall_mem_append, List.forall_mem_singleton,
      Expr.readyFor_group, and_true] using ih
  | @var name t known =>
    exact leaf_settles rfl Expr.readyFor_var rfl fun target =>
      variableConversion_of_lifted harmony known
  | @const v typeName text t known belongs =>
    exact leaf_settles rfl Expr.readyFor_const rfl fun target hrep =>
      literal_of_lifted harmony known hrep v
  | @op name cs ts r length operands choice ih =>
    have htype : typeOf (.op (.resolved r.overload.result) name cs (some r)) =
      .ok r.overload.result := rfl
    have candidate := (Expr.choice_spec length choice).1
    unfold Settles
    rw [outcome, htype, Except.ok_bind, Expr.nodes_op, Environment.compileContext_options]
    simp only [List.forall_mem_append, List.forall_mem_singleton, Expr.readyFor_op]
    -- without an evaluator nothing is asked of the operands
    cases hevaluator : r.overload.evaluator? options.mode with
    | none =>
      refine .inr ⟨by simp, r.overload.signature, ?_⟩
      simp only [chosen, Expr.resolution?, hevaluator]
      rfl
    | some e =>
      have hchildren : ∀ c ∈ cs, ∀ u, c.HasType env vars u →
          Settles (env.compileContext options) c u := by
        intro c hc u hu
        exact ih c u (Expr.mem_zip_of_slot length operands hc hu.slot_eq)
      have hoperands := operands_of_choice coherent length operands choice hevaluator
      have hsettle := outcomes_settle
        (operands_settle harmony candidate hoperands hchildren fun _ ht => ht)
      rw [chosen_eq_ok.2 ⟨rfl, hevaluator⟩]
      simp only [Except.ok_bind, Option.isSome_some, and_true]
      rcases hsettle with ⟨ready, houtcomes⟩ | ⟨notReady, subject, houtcomes⟩
      · refine .inl ⟨ready, e.result, ?_, ?_⟩
        · rw [houtcomes]
          rfl
        · exact (coherent.represented name _ candidate).result _ e hevaluator
      · refine .inr ⟨notReady, subject, ?_⟩
        rw [houtcomes]
        rfl

end Compile

/-- In harmony an expression compiles for a mode exactly if all its nodes are ready for it, and the
only error is that an evaluator or a representation is missing. -/
theorem Environment.Harmonious.compile (harmony : env.Harmonious) (coherent : env.Coherent)
    {e : Expr} {t : MathType} (he : e.HasType env vars t) {options : CompileOptions}
    (valid : options.validate = .ok ()) :
    ((∃ unit, env.compile options e = .ok unit) ↔ ∀ n ∈ e.nodes, n.ReadyFor options.mode) ∧
    ∀ err, env.compile options e = .error err →
      ∃ subject, err = .noEvaluator subject options.mode := by
  have houtcome := compile_outcome coherent he options
  rw [valid, Except.ok_bind] at houtcome
  rcases Compile.node_settles harmony coherent he with ⟨ready, c, hc, -⟩ | ⟨notReady, subject, herr⟩
  · rw [hc] at houtcome
    cases hunit : env.compile options e with
    | error err =>
      rw [hunit] at houtcome
      cases houtcome
    | ok unit => exact ⟨iff_of_true ⟨unit, rfl⟩ ready, fun _ h => (nomatch h)⟩
  · rw [herr] at houtcome
    cases hunit : env.compile options e with
    | error err =>
      rw [hunit] at houtcome
      cases houtcome
      refine ⟨iff_of_false (fun ⟨_, h⟩ => (nomatch h)) notReady, ?_⟩
      rintro _ ⟨⟩
      exact ⟨subject, rfl⟩
    | ok unit =>
      rw [hunit] at houtcome
      cases houtcome

theorem Environment.validate_of_compile {options : CompileOptions} {e : Expr} {unit : CompiledUnit}
    (h : env.compile options e = .ok unit) : options.validate = .ok () := by
  unfold Environment.compile at h
  obtain ⟨⟨⟩, hvalid, -⟩ := Except.bind_eq_ok.1 h
  exact hvalid

/-- In harmony the names of the positional arguments and the nodes decide whether an expression
compiles. -/
theorem Environment.Harmonious.compiles_iff (harmony : env.Harmonious) (coherent : env.Coherent)
    {e : Expr} {t : MathType} (he : e.HasType env vars t) {options : CompileOptions} :
    (∃ unit, env.compile options e = .ok unit) ↔
      options.validate = .ok () ∧ ∀ n ∈ e.nodes, n.ReadyFor options.mode := by
  constructor
  · rintro ⟨unit, hunit⟩
    have valid := validate_of_compile hunit
    exact ⟨valid, (harmony.compile coherent he valid).1.1 ⟨unit, hunit⟩⟩
  · rintro ⟨valid, ready⟩
    exact (harmony.compile coherent he valid).1.2 ready

end Formula
