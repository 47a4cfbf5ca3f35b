import Formula.Proofs.Program.Frames
/-!
Whether compilation succeeds, told from the expression alone. Nothing that is bound earlier makes a
difference: a program can be made if every leaf has a representation, every operator an evaluator
and every operand a conversion, and otherwise the first of these that is missing is the error.
-/

namespace Formula

namespace Compile

/-! ### What compilation comes to -/

mutual

/-- What compiling an expression comes to: the concrete type of its value, or an error. -/
def outcome (ctx : Context) : Expr → Except Error ConcreteType
  | .group slot cs => do
    let _ ← typeOf (.group slot cs)
    match cs with
    | [c] => outcome ctx c
    | _ => throw (.unresolved (Expr.group slot cs).text)
  | .var slot name => do
    let t ← typeOf (.var slot name)
    let target ← representation t ctx.options.mode
    let _ ← variableConversion ctx t target
    pure target
  | .const slot value typeName text => do
    let t ← typeOf (.const slot value typeName text)
    let target ← representation t ctx.options.mode
    let _ ← literal ctx t target value
    pure target
  | .op slot name cs resolution => do
    let _ ← typeOf (.op slot name cs resolution)
    let (_, e) ← chosen ctx.options.mode (.op slot name cs resolution)
    outcomes ctx cs e.arguments
    pure e.result

/-- What compiling expressions as operands of some types comes to. -/
def outcomes (ctx : Context) : List Expr → List ConcreteType → Except Error Unit
  | e :: es, target :: targets => do
    let source ← outcome ctx e
    let _ ← castBetween ctx source target
    outcomes ctx es targets
  | _, _ => pure ()

end

/-- A step of compilation and a computation come to the same: to related results, or to one
error. -/
inductive Meets {α β : Type} (R : α → β → Prop) : Except Error (α × Build) → Except Error β → Prop
  | ok {x b y} (related : R x y) : Meets R (.ok (x, b)) (.ok y)
  | error (err : Error) : Meets R (.error err) (.error err)

section Meets

variable {α β γ δ : Type} {R : α → β → Prop} {S : γ → δ → Prop} {b : Build}

theorem Meets.bind {m : Compiler α} {o : Except Error β} {f : α → Compiler γ}
    {g : β → Except Error δ} (hm : Meets R (m.run b) o)
    (hf : ∀ x b' y, m.run b = .ok (x, b') → o = .ok y → R x y →
      Meets S ((f x).run b') (g y)) : Meets S ((m >>= f).run b) (o >>= g) := by
  rw [StateT.run_bind]
  cases hrun : m.run b with
  | error err =>
    rw [hrun] at hm
    cases hm
    exact .error err
  | ok p =>
    rw [hrun] at hm
    cases hm with
    | ok related => exact hf _ _ _ hrun rfl related

theorem Meets.lift (o : Except Error α) : Meets Eq ((liftM o : Compiler α).run b) o := by
  cases o with
  | error err => exact .error err
  | ok x => exact .ok rfl

theorem Meets.lift_bind {o : Except Error α} {f : α → Compiler γ} {g : α → Except Error δ}
    (hf : ∀ x, o = .ok x → Meets S ((f x).run b) (g x)) :
    Meets S ((liftM o >>= f).run b) (o >>= g) := by
  cases o with
  | error err => exact .error err
  | ok x => exact hf x rfl

end Meets

/-! ### Steps that always succeed -/

section Succeeds

variable {α β : Type}

/-- A step of compilation succeeds whatever is bound before. -/
def Succeeds (m : Compiler α) : Prop :=
  ∀ b, ∃ x b', m.run b = .ok (x, b')

theorem Succeeds.bind {m : Compiler α} {f : α → Compiler β} (hm : Succeeds m)
    (hf : ∀ x, Succeeds (f x)) : Succeeds (m >>= f) := by
  intro b
  obtain ⟨x, b', hrun⟩ := hm b
  rw [StateT.run_bind, hrun]
  exact hf x b'

theorem succeeds_pure (x : α) : Succeeds (pure x) :=
  fun b => ⟨x, b, rfl⟩

theorem succeeds_get : Succeeds get :=
  fun b => ⟨b, b, rfl⟩

theorem succeeds_set (b : Build) : Succeeds (set b) :=
  fun _ => ⟨⟨⟩, b, rfl⟩

theorem succeeds_modify (f : Build → Build) : Succeeds (modify f) :=
  fun b => ⟨⟨⟩, f b, rfl⟩

theorem keepConstant_succeeds (v : Value) : Succeeds (keepConstant v) := by
  refine succeeds_get.bind fun b => ?_
  split
  · exact succeeds_pure _
  · exact (succeeds_set _).bind fun _ => succeeds_pure _

theorem keepFunction_succeeds (f : Imported) : Succeeds (keepFunction f) := by
  refine succeeds_get.bind fun b => ?_
  split
  · exact succeeds_pure _
  · exact (succeeds_set _).bind fun _ => succeeds_pure _

theorem keep_succeeds (x : Bound) : Succeeds (keep x) := by
  cases x with
  | slot i => exact succeeds_pure _
  | literal v => exact keepConstant_succeeds v

theorem bind_succeeds (step : Step) (type : ConcreteType) : Succeeds (Compile.bind step type) :=
  succeeds_get.bind fun _ => (succeeds_set _).bind fun _ => succeeds_pure _

theorem conversionSlot_succeeds (c : ConcreteCast) (source : Nat) (target : String) :
    Succeeds (conversionSlot c source target) := by
  refine succeeds_get.bind fun b => ?_
  split
  · exact succeeds_pure _
  · exact (keepFunction_succeeds _).bind fun _ => (bind_succeeds _ _).bind fun _ =>
      (succeeds_modify _).bind fun _ => succeeds_pure _

theorem applicationSlot_succeeds (o : Overload) (e : Evaluator) (xs : List Operand) :
    Succeeds (applicationSlot o e xs) := by
  unfold applicationSlot
  split
  · exact bind_succeeds _ _
  · exact bind_succeeds _ _
  · exact (keepFunction_succeeds _).bind fun _ => bind_succeeds _ _

/-- A step that always succeeds makes no difference to what compilation comes to. -/
theorem Meets.skip {γ δ : Type} {S : γ → δ → Prop} {b : Build} {m : Compiler α}
    {f : α → Compiler γ} {o : Except Error δ} (hm : Succeeds m)
    (hf : ∀ x b', m.run b = .ok (x, b') → Meets S ((f x).run b') o) :
    Meets S ((m >>= f).run b) o := by
  obtain ⟨x, b', hrun⟩ := hm b
  rw [StateT.run_bind, hrun]
  exact hf x b' hrun

/-- Steps that always succeed may follow. -/
theorem Meets.followed {γ : Type} {R : α → β → Prop} {b : Build} {m : Compiler α}
    {o : Except Error β} {f : α → Compiler γ} (hm : Meets R (m.run b) o)
    (hf : ∀ x, Succeeds (f x)) : Meets (fun _ _ => True) ((m >>= f).run b) o := by
  rw [StateT.run_bind]
  cases hrun : m.run b with
  | error err =>
    rw [hrun] at hm
    cases hm
    exact .error err
  | ok p =>
    rw [hrun] at hm
    cases hm with
    | @ok x b' y related =>
      obtain ⟨z, c, hrun⟩ := hf x b'
      show Meets _ ((f x).run b') _
      rw [hrun]
      exact .ok trivial

end Succeeds

/-! ### Expressions -/

theorem chosen_eq_ok {mode : Mode} {slot : TypeSlot} {name : String} {cs : List Expr}
    {r : Resolution} {o : Overload} {e : Evaluator} :
    chosen mode (.op slot name cs (some r)) = .ok (o, e) ↔
      r.overload = o ∧ r.overload.evaluator? mode = some e := by
  unfold chosen
  simp only [Expr.resolution?]
  cases r.overload.evaluator? mode <;> simp

namespace Typing

variable {T : Typing} {b : Build}

/-- A variable that has a slot could be converted when it got it. -/
theorem variableSlot_meets {name : String} {t : MathType} {target : ConcreteType} (hb : T.Valid b)
    (known : T.env.types.mathematical.get? (Expr.variableTypeName T.env T.vars name) = some t)
    (represented : t.representation? T.options.mode = some target) :
    Meets (fun _ _ => True) ((variableSlot T.context name t target).run b)
      (variableConversion T.context t target) := by
  unfold variableSlot
  rw [StateT.run_bind, StateT.run_get, pure_bind]
  dsimp only
  cases hlookup : b.reads.lookup name with
  | some i =>
    -- the read that made the slot asked for the same conversion
    obtain ⟨t', target', known', represented', conversion?, hconversion, -⟩ :=
      hb.reads name i hlookup
    obtain rfl : t = t' := Option.some.inj (known.symm.trans known')
    obtain rfl : target = target' := Option.some.inj (represented.symm.trans represented')
    rw [hconversion]
    exact .ok trivial
  | none =>
    refine (Meets.lift _).followed fun _ => ?_
    exact (bind_succeeds _ _).bind fun _ => (succeeds_modify _).bind fun _ => succeeds_pure _

theorem operand_meets (x : Bound) (source target : ConcreteType) :
    Meets (fun _ _ => True) ((operand T.context x source target).run b)
      (castBetween T.context source target) := by
  refine (Meets.lift _).followed fun c => ?_
  cases c with
  | identity => exact keep_succeeds x
  | convert c =>
    cases x with
    | literal v => exact keepConstant_succeeds _
    | slot i => exact (conversionSlot_succeeds _ _ _).bind fun _ => succeeds_pure _

/-- Compiling an expression comes to its outcome, whatever is bound before. -/
def Foretold (T : Typing) (e : Expr) : Prop :=
  ∀ b, T.Valid b →
    Meets (fun r type => r.2 = type) ((node T.context e).run b) (outcome T.context e)

theorem nodes_meet {cs : List Expr} {targets : List ConcreteType} (hT : T.Closed)
    (ih : ∀ c ∈ cs, T.Foretold c ∧ ∃ t, Expr.HasType T.env T.vars c t ∧ T.Covers c)
    (wanted : ∀ c ∈ targets, T.Wanted c.name) (hb : T.Valid b) :
    Meets (fun _ _ => True) ((nodes T.context cs targets).run b)
      (outcomes T.context cs targets) := by
  induction cs generalizing targets b with
  | nil =>
    rw [nodes, outcomes]
    · exact .ok trivial
    all_goals simp
  | cons c cs ih' =>
    cases targets with
    | nil =>
      rw [nodes, outcomes]
      · exact .ok trivial
      all_goals simp
    | cons target targets =>
      rw [List.forall_mem_cons] at ih wanted
      obtain ⟨⟨hforetold, t, ht, hcovers⟩, ih⟩ := ih
      rw [nodes, outcomes]
      refine (hforetold b hb).bind fun r b₁ source' hnode _ hsource => ?_
      obtain ⟨x, source⟩ := r
      obtain rfl : source = source' := hsource
      obtain ⟨-, hb₁, hx⟩ := node_valid hT ht hcovers hb hnode
      refine (operand_meets x source target).bind fun a b₂ _ hoperand _ _ => ?_
      obtain ⟨-, hb₂, -⟩ := operand_valid hT hb₁ hx wanted.1 hoperand
      exact (ih' ih wanted.2 hb₂).followed fun _ => succeeds_pure _

/-- Every expression that has a type comes to its outcome. -/
theorem node_foretold {e : Expr} {t : MathType} (hT : T.Closed)
    (he : Expr.HasType T.env T.vars e t) (hc : T.Covers e) : T.Foretold e := by
  induction he with
  | @group c t child ih =>
    intro b hb
    rw [node, outcome]
    refine Meets.lift_bind fun _ _ => ?_
    exact ih (hc.mono (Expr.nodes_subset_group (by simp))) b hb
  | @var name t known =>
    intro b hb
    rw [node, outcome]
    refine Meets.lift_bind fun u hu => Meets.lift_bind fun target htarget => ?_
    obtain rfl : t = u := Option.some.inj (typeOf_eq_ok.1 hu)
    have represented := representation_eq_ok.1 htarget
    exact (variableSlot_meets hb known represented).bind fun _ _ _ _ _ _ => .ok rfl
  | const known belongs =>
    intro b hb
    rw [node, outcome]
    refine Meets.lift_bind fun u _ => Meets.lift_bind fun target _ => ?_
    exact Meets.lift_bind fun w _ => .ok rfl
  | @op name cs ts r length operands choice ih =>
    intro b hb
    rw [node, outcome]
    refine Meets.lift_bind fun _ _ => Meets.lift_bind fun q hchosen => ?_
    obtain ⟨o, e⟩ := q
    obtain ⟨rfl, hevaluator⟩ := chosen_eq_ok.1 hchosen
    have hchildren : ∀ c ∈ cs, T.Foretold c ∧
        ∃ t, Expr.HasType T.env T.vars c t ∧ T.Covers c := by
      intro c hmem
      obtain ⟨u, hzip⟩ := Expr.exists_mem_zip length hmem
      have hcovers : T.Covers c := hc.mono (Expr.nodes_subset_op hmem)
      exact ⟨ih c u hzip hcovers, u, operands c u hzip, hcovers⟩
    have hcalled : T.calls e := hc.calls e ⟨_, name, cs, r, Expr.self_mem_nodes _, hevaluator⟩
    have hwanted : ∀ c ∈ e.arguments, T.Wanted c.name := fun c => .argument hcalled
    refine (nodes_meet hT hchildren hwanted hb).bind fun xs b₁ _ _ _ _ => ?_
    exact Meets.skip (applicationSlot_succeeds r.overload e xs) fun _ _ _ => .ok rfl

end Typing

end Compile

/-- Whether compilation succeeds, with which return type or error, is told by the names of the
positional arguments and the outcome of the expression. -/
theorem Environment.compile_outcome {env : Environment} {vars : VariableTypes} {e : Expr}
    {t : MathType} (coherent : env.Coherent) (he : e.HasType env vars t)
    (options : CompileOptions) :
    (env.compile options e).map (·.program.returnType) = (do
      options.validate
      Compile.outcome (env.compileContext options) e) := by
  have hforetold : (env.offering vars options).Foretold e :=
    Compile.Typing.node_foretold (closed_offering coherent) he (covers_offering he)
  have hmeets := hforetold {} Compile.Typing.valid_empty
  change Compile.Meets _ ((Compile.node (env.compileContext options) e).run {})
    (Compile.outcome (env.compileContext options) e) at hmeets
  -- from here on only that both come to the same counts
  generalize Compile.outcome (env.compileContext options) e = o at hmeets ⊢
  unfold compile Compile.program
  cases options.validate with
  | error err => rfl
  | ok _ =>
    simp only [Except.ok_bind, StateT.run_bind]
    generalize (Compile.node (env.compileContext options) e).run {} = result at hmeets ⊢
    cases hmeets with
    | error err => rfl
    | @ok r b type related =>
      obtain ⟨a, b', hkeep⟩ := Compile.keep_succeeds r.1 b
      simp only [Except.ok_bind, hkeep, ← related]
      rfl

end Formula
