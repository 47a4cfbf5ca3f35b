import Formula.Proofs.Program.Faults
import Formula.Proofs.Program.Readiness
/-!
Programs that read otherwise. Options that only concern variables change the readings of a program
and nothing else: what is compiled under one choice is compiled under another, with every reading
replaced.
-/

namespace Formula

variable {f : VariableRead → VariableRead}

/-- A step with its reading replaced, if it is one. -/
def Step.mapRead (f : VariableRead → VariableRead) : Step → Step
  | read r => read (f r)
  | s => s

/-- A binding with its reading replaced. -/
def Binding.mapRead (f : VariableRead → VariableRead) (b : Binding) : Binding :=
  { b with step := b.step.mapRead f }

theorem Step.mapRead_of_none {s : Step} (h : s.read? = none) : s.mapRead f = s := by
  cases s with
  | read r => cases h
  | convert | binary | unary | call => rfl

namespace Compile

/-- A program under construction with its readings replaced. -/
def Build.mapRead (f : VariableRead → VariableRead) (b : Build) : Build :=
  { b with bindings := b.bindings.map (Binding.mapRead f) }

/-! ### Steps of compilation that follow others -/

/-- What a step of compilation comes to if it succeeds, another comes to where the readings are
replaced. -/
def Follows {α : Type} (f : VariableRead → VariableRead) (m m' : Compiler α) : Prop :=
  ∀ b x b', m.run b = .ok (x, b') → m'.run (b.mapRead f) = .ok (x, b'.mapRead f)

section Follows

variable {α β : Type}

theorem follows_pure (x : α) : Follows f (pure x) (pure x) := by
  intro b y b' h
  obtain ⟨rfl, rfl⟩ := run_pure_eq_ok.1 h
  rfl

theorem follows_throw (err : Error) :
    Follows f (throw err : Compiler α) (throw err) := by
  intro b y b' h
  cases h

theorem Follows.bind {m m' : Compiler α} {k k' : α → Compiler β} (hm : Follows f m m')
    (hk : ∀ x, Follows f (k x) (k' x)) : Follows f (m >>= k) (m' >>= k') := by
  intro b y b' h
  obtain ⟨x, c, hx, hy⟩ := run_bind_eq_ok.1 h
  exact run_bind_eq_ok.2 ⟨x, c.mapRead f, hm b x c hx, hk x c y b' hy⟩

theorem Follows.lift_bind {o o' : Except Error α} {k k' : α → Compiler β}
    (h : ∀ x, o = .ok x → ∃ x', o' = .ok x' ∧ Follows f (k x) (k' x')) :
    Follows f (liftM o >>= k) (liftM o' >>= k') := by
  intro b y b' hrun
  obtain ⟨x, c, hlift, hy⟩ := run_bind_eq_ok.1 hrun
  obtain ⟨hx, rfl⟩ := run_liftM_eq_ok.1 hlift
  obtain ⟨x', hx', hk⟩ := h x hx
  exact run_bind_eq_ok.2 ⟨x', b.mapRead f, run_liftM_eq_ok.2 ⟨hx', rfl⟩, hk b y b' hy⟩

/-- A step that both ask for is the same for both. -/
theorem Follows.asked_bind {o o' : Except Error α} {k k' : α → Compiler β} (ho : o' = o)
    (h : ∀ x, o = .ok x → Follows f (k x) (k' x)) :
    Follows f (liftM o >>= k) (liftM o' >>= k') := by
  apply Follows.lift_bind
  intro x hx
  exact ⟨x, ho.trans hx, h x hx⟩

theorem Follows.get_bind {k k' : Build → Compiler α}
    (h : ∀ c, Follows f (k c) (k' (c.mapRead f))) : Follows f (get >>= k) (get >>= k') := by
  intro b y b' hrun
  obtain ⟨c, d, hc, hy⟩ := run_bind_eq_ok.1 hrun
  obtain ⟨rfl, rfl⟩ := run_get_eq_ok.1 hc
  exact run_bind_eq_ok.2 ⟨_, _, run_get_eq_ok.2 ⟨rfl, rfl⟩, h b b y b' hy⟩

theorem follows_set {c c' : Build} (h : c' = c.mapRead f) :
    Follows f (set c : Compiler PUnit) (set c') := by
  intro b y b' hrun
  obtain rfl := run_set_eq_ok.1 hrun
  exact run_set_eq_ok.2 h

theorem follows_modify {g : Build → Build} (h : ∀ b, g (b.mapRead f) = (g b).mapRead f) :
    Follows f (modify g : Compiler PUnit) (modify g) := by
  intro b y b' hrun
  obtain rfl := run_modify_eq_ok.1 hrun
  exact run_modify_eq_ok.2 (h b)

theorem keepConstant_follows (v : Value) : Follows f (keepConstant v) (keepConstant v) := by
  apply Follows.get_bind
  intro c
  dsimp only [Build.mapRead]
  cases c.constants.findIdx? (· == v) with
  | some i => exact follows_pure _
  | none => exact (follows_set rfl).bind fun _ => follows_pure _

theorem keepFunction_follows (g : Imported) : Follows f (keepFunction g) (keepFunction g) := by
  apply Follows.get_bind
  intro c
  dsimp only [Build.mapRead]
  cases c.functions.findIdx? (·.origin == g.origin) with
  | some i => exact follows_pure _
  | none => exact (follows_set rfl).bind fun _ => follows_pure _

theorem keep_follows (x : Bound) : Follows f (keep x) (keep x) := by
  cases x with
  | slot i => exact follows_pure _
  | literal v => exact keepConstant_follows v

theorem bind_follows (step : Step) (type : ConcreteType) :
    Follows f (Compile.bind step type) (Compile.bind (step.mapRead f) type) := by
  intro b i b' h
  obtain ⟨rfl, rfl⟩ := bind_run h
  unfold Compile.bind
  simp [Build.mapRead, Binding.mapRead]

/-- A step that reads nothing is bound as it is. -/
theorem bind_follows_of_none {step : Step} (h : step.read? = none) (type : ConcreteType) :
    Follows f (Compile.bind step type) (Compile.bind step type) := by
  have hfollows := @bind_follows f step type
  rwa [Step.mapRead_of_none h] at hfollows

theorem conversionSlot_follows (c : ConcreteCast) (source : Nat) (target : String) :
    Follows f (conversionSlot c source target) (conversionSlot c source target) := by
  apply Follows.get_bind
  intro d
  dsimp only [Build.mapRead]
  cases d.conversions.lookup (source, target) with
  | some i => exact follows_pure _
  | none =>
    refine (keepFunction_follows _).bind fun _ => (bind_follows_of_none rfl _).bind fun i => ?_
    refine Follows.bind (follows_modify ?_) fun _ => follows_pure i
    intro b
    rfl

theorem applicationSlot_follows (o : Overload) (e : Evaluator) (xs : List Operand) :
    Follows f (applicationSlot o e xs) (applicationSlot o e xs) := by
  unfold applicationSlot
  split
  · exact bind_follows_of_none rfl _
  · exact bind_follows_of_none rfl _
  · exact (keepFunction_follows _).bind fun _ => bind_follows_of_none rfl _

end Follows

/-! ### Expressions -/

/-- Compilation depends on the same in two contexts, but for the readings of variables: where the
first makes a reading, the second makes it as replaced. -/
structure Context.Rereads (f : VariableRead → VariableRead) (ctx ctx' : Context) : Prop where
  casts : ctx'.casts = ctx.casts
  defaultMode : ctx'.defaultMode = ctx.defaultMode
  mode : ctx'.options.mode = ctx.options.mode
  reads : ∀ name t target conversion?, variableConversion ctx t target = .ok conversion? →
    ∃ conversion?', variableConversion ctx' t target = .ok conversion?' ∧
      readOf ctx' name target conversion?' = (readOf ctx name target conversion?).mapRead f

variable {ctx ctx' : Context}

namespace Context.Rereads

theorem castBetween_eq (h : ctx.Rereads f ctx') (source target : ConcreteType) :
    castBetween ctx' source target = castBetween ctx source target := by
  rw [castBetween, castBetween, h.casts]

theorem literal_eq (h : ctx.Rereads f ctx') (t : MathType) (target : ConcreteType) (v : Value) :
    literal ctx' t target v = literal ctx t target v := by
  simp only [literal, h.defaultMode, h.castBetween_eq]

theorem operand_follows (h : ctx.Rereads f ctx') (x : Bound) (source target : ConcreteType) :
    Follows f (operand ctx x source target) (operand ctx' x source target) := by
  refine Follows.asked_bind (h.castBetween_eq source target) fun c _ => ?_
  cases c with
  | identity => exact keep_follows x
  | convert c =>
    cases x with
    | literal v => exact keepConstant_follows _
    | slot i => exact (conversionSlot_follows _ _ _).bind fun _ => follows_pure _

theorem variableSlot_follows (h : ctx.Rereads f ctx') (name : String) (t : MathType)
    (target : ConcreteType) :
    Follows f (variableSlot ctx name t target) (variableSlot ctx' name t target) := by
  apply Follows.get_bind
  intro d
  dsimp only [Build.mapRead]
  cases d.reads.lookup name with
  | some i => exact follows_pure _
  | none =>
    apply Follows.lift_bind
    intro conversion? hconversion
    obtain ⟨conversion?', hconversion', hread⟩ := h.reads name t target conversion? hconversion
    refine ⟨conversion?', hconversion', ?_⟩
    have hbind := @bind_follows f (readOf ctx name target conversion?) target
    rw [← hread] at hbind
    refine hbind.bind fun i => Follows.bind (follows_modify ?_) fun _ => follows_pure i
    intro b
    rfl

theorem nodes_follow (h : ctx.Rereads f ctx') {cs : List Expr}
    (ih : ∀ c ∈ cs, Follows f (node ctx c) (node ctx' c)) (targets : List ConcreteType) :
    Follows f (nodes ctx cs targets) (nodes ctx' cs targets) := by
  induction cs generalizing targets with
  | nil =>
    rw [nodes, nodes]
    · exact follows_pure []
    all_goals simp
  | cons c cs ih' =>
    cases targets with
    | nil =>
      rw [nodes, nodes]
      · exact follows_pure []
      all_goals simp
    | cons target targets =>
      rw [List.forall_mem_cons] at ih
      rw [nodes, nodes]
      refine ih.1.bind fun r => ?_
      refine (h.operand_follows r.1 r.2 target).bind fun a => ?_
      exact (ih' ih.2 targets).bind fun as => follows_pure _

/-- Where an expression is compiled, it is compiled with the readings replaced. -/
theorem node_follows (h : ctx.Rereads f ctx') (e : Expr) :
    Follows f (node ctx e) (node ctx' e) := by
  induction e with
  | group slot cs ih =>
    rcases cs with _ | ⟨c, _ | ⟨d, cs⟩⟩
    · exact Follows.asked_bind rfl fun _ _ => follows_throw _
    · rw [node, node]
      exact Follows.asked_bind rfl fun _ _ => ih c (by simp)
    · exact Follows.asked_bind rfl fun _ _ => follows_throw _
  | var slot name =>
    rw [node, node]
    refine Follows.asked_bind rfl fun t _ => ?_
    refine Follows.asked_bind (by rw [h.mode]) fun target _ => ?_
    exact (h.variableSlot_follows name t target).bind fun i => follows_pure _
  | const slot v typeName text =>
    rw [node, node]
    refine Follows.asked_bind rfl fun t _ => ?_
    refine Follows.asked_bind (by rw [h.mode]) fun target _ => ?_
    exact Follows.asked_bind (h.literal_eq t target v) fun w _ => follows_pure _
  | op slot name cs r ih =>
    rw [node, node]
    refine Follows.asked_bind rfl fun _ _ => ?_
    refine Follows.asked_bind (by rw [h.mode]) fun q _ => ?_
    refine (h.nodes_follow ih q.2.arguments).bind fun xs => ?_
    exact (applicationSlot_follows q.1 q.2 xs).bind fun i => follows_pure _

end Context.Rereads

end Compile

/-! ### Programs -/

/-- A program with its readings replaced, for other positional arguments. -/
def Program.reread (f : VariableRead → VariableRead) (exported : List String) (p : Program) :
    Program :=
  { p with bindings := p.bindings.map (Binding.mapRead f), exported }

theorem Program.newFrame_reread (p : Program) (exported : List String) :
    (p.reread f exported).newFrame = p.newFrame := by
  simp [newFrame, reread, Binding.mapRead, Function.comp_def]

theorem Compile.Context.Rereads.program_reread {ctx ctx' : Context} {e : Expr} {p : Program}
    (h : ctx.Rereads f ctx') (hp : program ctx e = .ok p) :
    program ctx' e = .ok (p.reread f ctx'.options.exported) := by
  unfold program at hp ⊢
  obtain ⟨⟨⟨root, returnType⟩, b⟩, hrun, hp⟩ := Except.bind_eq_ok.1 hp
  obtain rfl := Except.pure_eq_ok.1 hp
  have hfollows : Follows f (do let r ← node ctx e; pure (← keep r.1, r.2))
      (do let r ← node ctx' e; pure (← keep r.1, r.2)) :=
    (h.node_follows e).bind fun r => (keep_follows r.1).bind fun a => follows_pure _
  have hempty : Build.mapRead f {} = {} := by simp [Build.mapRead]
  have hrun' := hfollows {} _ _ hrun
  rw [hempty] at hrun'
  exact Except.bind_eq_ok.2 ⟨_, hrun', rfl⟩

namespace Environment

open Compile

variable {env : Environment} {options options' : CompileOptions} {e : Expr} {unit : CompiledUnit}

/-- What is compiled under some options is compiled under others with the readings replaced. -/
theorem compile_reread
    (h : (env.compileContext options).Rereads f (env.compileContext options'))
    (valid : options'.validate = .ok ()) (compiled : env.compile options e = .ok unit) :
    env.compile options' e =
      .ok { mode := options'.mode, program := unit.program.reread f options'.exported } := by
  have hprogram := h.program_reread (compile_eq_ok compiled)
  rw [Environment.compile, valid, Except.ok_bind, hprogram]
  rfl

/-- What compilation comes to depends on the positional arguments only through their names, and not
at all on the checks. -/
theorem outcome_congr (mode : options'.mode = options.mode) (casts : options'.casts = options.casts)
    (e : Expr) : outcome (env.compileContext options') e =
      outcome (env.compileContext options) e := by
  have hmode : (env.compileContext options').options.mode =
      (env.compileContext options).options.mode := mode
  have hconversion : ∀ t target, variableConversion (env.compileContext options') t target =
      variableConversion (env.compileContext options) t target := by
    intro t target
    unfold variableConversion
    rw [compileContext_options, compileContext_options, casts]
    rfl
  induction e with
  | group slot cs ih =>
    match cs with
    | [c] =>
      rw [outcome, outcome]
      simp only [ih c (by simp)]
    | [] | _ :: _ :: _ => rfl
  | var slot name =>
    rw [outcome, outcome, hmode]
    simp only [hconversion]
  | const slot v typeName text =>
    rw [outcome, outcome, hmode]
    rfl
  | op slot name cs r ih =>
    have hcs : ∀ targets, outcomes (env.compileContext options') cs targets =
        outcomes (env.compileContext options) cs targets := by
      intro targets
      induction cs generalizing targets with
      | nil =>
        rw [outcomes, outcomes]
        all_goals simp
      | cons c cs ih' =>
        rw [List.forall_mem_cons] at ih
        cases targets with
        | nil =>
          rw [outcomes, outcomes]
          all_goals simp
        | cons target targets =>
          rw [outcomes, outcomes, ih.1]
          simp only [ih' ih.2]
          rfl
    rw [outcome, outcome, hmode]
    simp only [hcs]

variable {vars : VariableTypes} {t : MathType}

/-- Whether an expression compiles, and the error if it does not, depends on the positional
arguments only through the validity of their names, and not at all on the checks. -/
theorem compile_alike (coherent : env.Coherent) (he : e.HasType env vars t)
    (mode : options'.mode = options.mode) (casts : options'.casts = options.casts)
    (valid : options'.validate = options.validate) :
    (env.compile options' e).map (·.program.returnType) =
      (env.compile options e).map (·.program.returnType) := by
  rw [compile_outcome coherent he, compile_outcome coherent he, valid, outcome_congr mode casts]

end Environment

/-! ### Runs -/

/-- Where readings that are replaced give what they gave before, the bindings do the same. -/
theorem Binding.alike_mapRead {inputs inputs' : Inputs} {bs : List Binding}
    (reads : ∀ r ∈ readsOf bs, ∀ place, r.run inputs place = (f r).run inputs' place)
    (constants : inputs.constants = inputs'.constants) :
    List.Forall₂ (Alike inputs inputs') bs (bs.map (mapRead f)) := by
  rw [List.forall₂_map_right_iff, List.forall₂_same]
  intro b hb
  refine ⟨rfl, fun slots place => ?_⟩
  cases hread : b.step.read? with
  | none =>
    rw [mapRead, Step.mapRead_of_none hread]
    exact Step.run_congr hread constants slots place
  | some r =>
    have hmem : r ∈ readsOf bs := List.mem_filterMap.2 ⟨b, hb, hread⟩
    rw [mapRead, Step.read?_eq_some.1 hread]
    exact reads r hmem place

/-- Units that only differ in readings which give the same give the same from fresh slots. -/
theorem CompiledUnit.evaluateWith_reread {unit unit' : CompiledUnit} {exported : List String}
    (program : unit'.program = unit.program.reread f exported) {arguments arguments' : List Value}
    {scope scope' : Scope} (length : arguments.length = unit.program.exported.length)
    (length' : arguments'.length = exported.length)
    (reads : ∀ constants, ∀ r ∈ readsOf unit.program.bindings.toList, ∀ place,
      r.run { arguments, scope, constants } place =
        (f r).run { arguments := arguments', scope := scope', constants } place) :
    unit.evaluateWith arguments scope = unit'.evaluateWith arguments' scope' := by
  rw [evaluateWith, evaluateWith, evaluateIn, evaluateIn, program, Program.newFrame_reread]
  have hbindings : (unit.program.reread f exported).bindings.toList =
      unit.program.bindings.toList.map (Binding.mapRead f) := Array.toList_map
  have halike := Binding.alike_mapRead (reads unit.program.constants) rfl
  rw [← hbindings] at halike
  have hrun := @Program.run_congr unit.program (unit.program.reread f exported) _ _ _ _ length
    length' rfl rfl halike unit.program.newFrame
  rw [hrun]

end Formula
