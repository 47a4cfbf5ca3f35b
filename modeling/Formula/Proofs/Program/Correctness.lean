import Formula.Proofs.Program.Run
/-!
A compiled program computes what direct evaluation does. The values that the program under
construction computes are followed along its compilation: as long as no read fails, each expression
that is compiled stands for its value, and the first read that fails is the one that fails directly.
-/

namespace Formula

namespace Compile.Typing

open Direct (variableValue)

variable {T : Typing} {inputs : Inputs} {b b' : Build} {done done' : Array Value}

/-- The values of variables that a run is given. -/
def assignment (T : Typing) (inputs : Inputs) : Assignment :=
  { exported := T.options.exported, arguments := inputs.arguments, scope := inputs.scope }

/-! ### Variables -/

theorem lookup_zip {names : List String} {vs : List Value} (h : vs.length = names.length)
    (name : String) : (names.zip vs).lookup name =
      (names.findIdx? (· == name)).map fun i => vs.getD i default := by
  induction names generalizing vs with
  | nil => rfl
  | cons n names ih =>
    obtain ⟨v, vs, rfl⟩ := List.exists_cons_of_length_eq_add_one h
    rw [List.zip_cons_cons, List.lookup_cons, List.findIdx?_cons]
    by_cases hn : n = name
    · subst hn
      simp
    · have hn' : (name == n) = false := beq_false_of_ne (Ne.symm hn)
      rw [hn', ih (Nat.succ.inj h)]
      cases names.findIdx? (· == name) <;> simp [hn]

/-- The reading of a variable gives the value that the variable has directly. -/
theorem value_readOf {name : String} {t : MathType} {target : ConcreteType}
    {conversion? : Option Lift}
    (hlen : inputs.arguments.length = T.options.exported.length)
    (h : variableConversion T.context t target = .ok conversion?) :
    (readOf T.context name target conversion?).value inputs done =
      variableValue T.context (T.assignment inputs) name t target := by
  unfold variableValue
  rw [h]
  simp only [readOf, Step.value, VariableRead.receive, VariableRead.value, Assignment.value?,
    assignment, lookup_zip hlen]
  cases hi : T.options.exported.findIdx? (· == name) with
  | some i => simp [context, Environment.compileContext, hi]
  | none =>
    cases inputs.scope.get? name <;>
      simp [context, Environment.compileContext, hi, throw, throwThe, MonadExceptOf.throw]

/-! ### Agreement -/

/-- What is computed agrees with what is evaluated directly: the result is the one that the values
computed stand for, or the error is the same. -/
def Agrees {α : Type} (direct : Except Error α) (result : Array Value → α) :
    Except (Error × Array Value) (Array Value) → Prop
  | .ok done => direct = .ok (result done)
  | .error (e, _) => direct = .error e

/-- The value of what an expression was compiled to. -/
def boundValue (done : Array Value) : Bound → Value
  | .slot i => done.getD i default
  | .literal v => v

/-- The values that a program under construction computes. -/
def computed (inputs : Inputs) (b : Build) : Except (Error × Array Value) (Array Value) :=
  compute inputs b.bindings.toList

theorem computed_push {x : Binding} (hd : computed inputs b = .ok done)
    (hb : b'.bindings = b.bindings.push x) : computed inputs b' = x.compute inputs done := by
  unfold computed at hd ⊢
  rw [hb, Array.toList_push, compute_append, hd, Except.ok_bind, List.foldlM_cons]
  cases x.compute inputs done <;> rfl

theorem computed_extends (hd : computed inputs b = .ok done) (hext : b.Extends b')
    (hd' : computed inputs b' = .ok done') : done.toList <+: done'.toList := by
  obtain ⟨more, hmore⟩ := hext.bindings
  unfold computed at hd hd'
  rw [← hmore, compute_append, hd, Except.ok_bind] at hd'
  exact (foldlM_compute_grown hd').1

theorem computed_error {p : Error × Array Value} (hd : computed inputs b = .error p)
    (hext : b.Extends b') : computed inputs b' = .error p := by
  obtain ⟨more, hmore⟩ := hext.bindings
  unfold computed at hd ⊢
  rw [← hmore, compute_append, hd, Except.error_bind]

theorem size_of_computed (hd : computed inputs b = .ok done) : done.size = b.bindings.size := by
  rw [size_of_compute hd, Array.length_toList]

theorem value_of_computed (hd : computed inputs b = .ok done) {i : Nat} {x : Binding}
    (hx : b.bindings[i]? = some x) : ∃ before v, before.size = i ∧ before.toList <+: done.toList ∧
      x.step.value inputs before = .ok v ∧ done[i]? = some v :=
  value_of_compute hd (by rw [Array.getElem?_toList, hx])

/-- Agreement goes on while the program grows: what fails early fails with the same error, and what
does not is followed by what agrees. -/
theorem Agrees.bind {α β : Type} {direct : Except Error α} {f : α → Except Error β}
    {result : Array Value → α} {result' : Array Value → β}
    (h : Agrees direct result (computed inputs b)) (hext : b.Extends b')
    (hf : ∀ done, computed inputs b = .ok done →
      Agrees (f (result done)) result' (computed inputs b')) :
    Agrees (direct >>= f) result' (computed inputs b') := by
  cases hd : computed inputs b with
  | error p =>
    rw [hd] at h
    have herror : direct = .error p.1 := h
    rw [computed_error hd hext, herror]
    rfl
  | ok done =>
    rw [hd] at h
    have hok : direct = .ok (result done) := h
    rw [hok, Except.ok_bind]
    exact hf done hd

/-- An operand keeps its value while the program grows. -/
theorem fetch_later {a : Operand} {type : String} (hd : computed inputs b = .ok done)
    (ha : T.Holds b.bindings b.constants b.bindings.size type a) (hext : b.Extends b')
    (hK : b.constants.toList <+: inputs.constants.toList) (hd' : computed inputs b' = .ok done') :
    a.fetch inputs done' = a.fetch inputs done := by
  refine Operand.fetch_grown ?_ (computed_extends hd hext hd')
  have hrange := ha.inRange
  have hle : b.constants.size ≤ inputs.constants.size := hK.length_le
  rw [size_of_computed hd]
  cases a with
  | slot i => exact hrange
  | constant i => exact Nat.lt_of_lt_of_le hrange hle

/-! ### Steps of compilation -/

theorem keepConstant_computes {v : Value} {a : Operand}
    (h : (keepConstant v).run b = .ok (a, b')) (hd : computed inputs b = .ok done)
    (hK : b'.constants.toList <+: inputs.constants.toList) :
    computed inputs b' = .ok done ∧ a.fetch inputs done = v := by
  obtain ⟨i, constants, rfl, rfl, hfound, -⟩ := keepConstant_run h
  refine ⟨hd, ?_⟩
  have hget := Build.Extends.getElem?_grown hK hfound
  simp [Operand.fetch, hget]

theorem keep_computes {x : Bound} {a : Operand} (h : (keep x).run b = .ok (a, b'))
    (hd : computed inputs b = .ok done) (hK : b'.constants.toList <+: inputs.constants.toList) :
    computed inputs b' = .ok done ∧ a.fetch inputs done = boundValue done x := by
  cases x with
  | slot i =>
    obtain ⟨rfl, rfl⟩ := run_pure_eq_ok.1 h
    exact ⟨hd, rfl⟩
  | literal v => exact keepConstant_computes h hd hK

/-- The slot of a variable holds its value, or reading it fails as it does directly. -/
theorem variableSlot_agrees {name : String} {t : MathType} {target : ConcreteType} {i : Nat}
    (hlen : inputs.arguments.length = T.options.exported.length) (hb : T.Valid b)
    (known : T.env.types.mathematical.get? (Expr.variableTypeName T.env T.vars name) = some t)
    (represented : t.representation? T.options.mode = some target)
    (h : (variableSlot T.context name t target).run b = .ok (i, b'))
    (hd : computed inputs b = .ok done) :
    Agrees (variableValue T.context (T.assignment inputs) name t target)
      (fun done => done.getD i default) (computed inputs b') := by
  rcases variableSlot_run h with ⟨hlookup, rfl⟩ | ⟨-, conversion?, hconversion, rfl, hb'⟩
  · obtain ⟨t', target', known', represented', conversion?, hconversion, hbinding⟩ :=
      hb.reads name i hlookup
    obtain rfl : t = t' := Option.some.inj (known.symm.trans known')
    obtain rfl : target = target' := Option.some.inj (represented.symm.trans represented')
    -- read before, and without an error, since there are values up to here
    obtain ⟨before, v, -, -, hv, hget⟩ := value_of_computed hd hbinding
    rw [value_readOf hlen hconversion] at hv
    simp [Agrees, hd, hv, hget]
  · rw [computed_push hd (by rw [hb'])]
    unfold Binding.compute
    rw [value_readOf hlen hconversion]
    cases hvalue : variableValue T.context (T.assignment inputs) name t target with
    | error e => rfl
    | ok v =>
      have hsize := size_of_computed hd
      simp [Agrees, ← hsize]

/-- The slot of a conversion holds the converted value. -/
theorem conversionSlot_computes {c : ConcreteCast} {source i : Nat} {target : String} {x : Binding}
    (hb : T.Valid b) (hx : b.bindings[source]? = some x)
    (hfind : CastRegistry.find? T.env.casts.concrete x.type.name target = some c)
    (h : (conversionSlot c source target).run b = .ok (i, b'))
    (hd : computed inputs b = .ok done) :
    ∃ done', computed inputs b' = .ok done' ∧
      done'.getD i default = c.apply (done.getD source default) := by
  rcases conversionSlot_run h with ⟨hlookup, rfl⟩ | ⟨-, rfl, f, functions, hb'⟩
  -- bound before: the source had its value by then, and still has it
  · obtain ⟨x', c', hx', hfind', f, hbinding⟩ := hb.conversions source target i hlookup
    obtain rfl : x = x' := Option.some.inj (hx.symm.trans hx')
    obtain rfl : c = c' := Option.some.inj (hfind.symm.trans hfind')
    obtain ⟨before, v, hsize, hgrown, hv, hget⟩ := value_of_computed hd hbinding
    cases hv
    have hsource : (Operand.slot source).InRange before.size inputs.constants.size := by
      rw [hsize]
      exact (hb.typed i _ hbinding).inRange (a := .slot source) (by simp [Step.operands])
    have hfetch := Operand.fetch_grown hsource hgrown
    simp only [Operand.fetch] at hfetch hget
    exact ⟨done, hd, by rw [hfetch]; simp [hget]⟩
  · refine ⟨done.push (c.apply (done.getD source default)), ?_, ?_⟩
    · rw [computed_push hd (by rw [hb'])]
      rfl
    · simp [← size_of_computed hd]

/-- An operand has the value of what was compiled, carried to its type. -/
theorem operand_computes {x : Bound} {source target : ConcreteType} {a : Operand}
    (hb : T.Valid b) (hx : T.Keeps b source.name x)
    (h : (operand T.context x source target).run b = .ok (a, b'))
    (hd : computed inputs b = .ok done) (hK : b'.constants.toList <+: inputs.constants.toList) :
    ∃ done' c, computed inputs b' = .ok done' ∧ castBetween T.context source target = .ok c ∧
      a.fetch inputs done' = c.carry (boundValue done x) := by
  simp only [castBetween_eq_ok]
  rcases operand_run h with ⟨hcast, hkeep⟩ | ⟨c, hcast, ⟨v, rfl, hkeep⟩ | ⟨i, j, rfl, hslot, rfl⟩⟩
  · obtain ⟨hd', hfetch⟩ := keep_computes hkeep hd hK
    exact ⟨done, .identity, hd', hcast, hfetch⟩
  · obtain ⟨hd', hfetch⟩ := keepConstant_computes hkeep hd hK
    exact ⟨done, .convert c, hd', hcast, hfetch⟩
  · obtain ⟨y, hy, hname⟩ := hx
    have hfind := CastRegistry.concreteCast?_eq_convert hcast
    rw [← hname] at hfind
    obtain ⟨done', hd', hvalue⟩ := conversionSlot_computes hb hy hfind hslot hd
    exact ⟨done', .convert c, hd', hcast, hvalue⟩

/-- The slot of an application holds what the evaluator makes of the operands. -/
theorem applicationSlot_computes {o : Overload} {e : Evaluator} {xs : List Operand} {i : Nat}
    (h : (applicationSlot o e xs).run b = .ok (i, b')) (hd : computed inputs b = .ok done) :
    ∃ done', computed inputs b' = .ok done' ∧
      done'.getD i default = e.call (xs.map (·.fetch inputs done)) := by
  obtain ⟨rfl, step, functions, applies, hb'⟩ := applicationSlot_run h
  refine ⟨done.push (e.call (xs.map (·.fetch inputs done))), ?_, ?_⟩
  · rw [computed_push hd (by rw [hb'])]
    simp only [Binding.compute, applies.value_eq]
  · simp [← size_of_computed hd]

/-! ### Expressions -/

/-- An expression that is compiled stands for the value that it has directly. -/
def Simulated (T : Typing) (inputs : Inputs) (e : Expr) : Prop :=
  ∀ b b' x type done, T.Valid b → (node T.context e).run b = .ok ((x, type), b') →
    b'.constants.toList <+: inputs.constants.toList → computed inputs b = .ok done →
    Agrees (Direct.node T.context (T.assignment inputs) e)
      (fun done => (boundValue done x, type)) (computed inputs b')

theorem nodes_agree {cs : List Expr} {targets : List ConcreteType} {xs : List Operand}
    (hT : T.Closed)
    (ih : ∀ c ∈ cs, Simulated T inputs c ∧ ∃ t, Expr.HasType T.env T.vars c t ∧ T.Covers c)
    (length : cs.length = targets.length) (wanted : ∀ c ∈ targets, T.Wanted c.name)
    (hb : T.Valid b) (h : (nodes T.context cs targets).run b = .ok (xs, b'))
    (hK : b'.constants.toList <+: inputs.constants.toList) (hd : computed inputs b = .ok done) :
    Agrees (Direct.nodes T.context (T.assignment inputs) cs targets)
      (fun done => xs.map (·.fetch inputs done)) (computed inputs b') := by
  induction cs generalizing targets xs b done with
  | nil =>
    obtain rfl := List.eq_nil_of_length_eq_zero length.symm
    obtain ⟨rfl, rfl⟩ := nodes_nil_run h
    rw [hd]
    rfl
  | cons c cs ih' =>
    obtain ⟨target, targets, rfl⟩ := List.exists_cons_of_length_eq_add_one length.symm
    obtain ⟨x, source, b₁, a, b₂, as, hnode, hoperand, hnodes, rfl⟩ := nodes_cons_run h
    rw [List.forall_mem_cons] at ih wanted
    obtain ⟨⟨hsim, t, ht, hcovers⟩, ih⟩ := ih
    obtain ⟨-, hb₁, hx⟩ := node_valid hT ht hcovers hb hnode
    obtain ⟨hext₂, hb₂, ha⟩ := operand_valid hT hb₁ hx wanted.1 hoperand
    obtain ⟨hext₃, -, -⟩ := nodes_valid hT
      (fun c hc b b' x type hb h => by
        obtain ⟨-, t, ht, hcovers⟩ := ih c hc
        exact node_valid hT ht hcovers hb h) (Nat.succ.inj length) wanted.2 hb₂ hnodes
    have hK₂ := hext₃.constants.trans hK
    have hagree := hsim _ _ _ _ _ hb hnode (hext₂.constants.trans hK₂) hd
    rw [Direct.nodes]
    refine hagree.bind (hext₂.trans hext₃) fun done₁ hd₁ => ?_
    obtain ⟨done₂, cast, hd₂, hcast, hfetch⟩ := operand_computes hb₁ hx hoperand hd₁ hK₂
    have hrest := ih' ih (Nat.succ.inj length) wanted.2 hb₂ hnodes hd₂
    simp only [hcast, Except.ok_bind]
    refine hrest.bind (.refl b') fun done₃ hd₃ => ?_
    -- the first operand still has its value when the others are computed
    have hlater := fetch_later hd₂ ha hext₃ hK₂ hd₃
    rw [hd₃]
    simp only [Agrees, List.map_cons, hlater, hfetch]
    rfl

theorem direct_var {t : MathType} {target : ConcreteType} {name : String}
    (represented : t.representation? T.options.mode = some target) :
    Direct.node T.context (T.assignment inputs) (.var (.resolved t) name) = (do
      pure (← variableValue T.context (T.assignment inputs) name t target, target)) := by
  have htype : typeOf (.var (.resolved t) name) = .ok t := rfl
  have htarget : representation t T.context.options.mode = .ok target :=
    representation_eq_ok.2 represented
  rw [Direct.node, htype, Except.ok_bind, htarget, Except.ok_bind]

theorem direct_const {t : MathType} {target : ConcreteType} {v w : Value} {typeName : String}
    {text : Option String} (represented : t.representation? T.options.mode = some target)
    (h : literal T.context t target v = .ok w) :
    Direct.node T.context (T.assignment inputs) (.const (.resolved t) v typeName text) =
      .ok (w, target) := by
  have htype : typeOf (.const (.resolved t) v typeName text) = .ok t := rfl
  have htarget : representation t T.context.options.mode = .ok target :=
    representation_eq_ok.2 represented
  rw [Direct.node, htype, Except.ok_bind, htarget, Except.ok_bind, h]
  rfl

theorem direct_op {slot : TypeSlot} {name : String} {cs : List Expr} {r : Resolution}
    {e : Evaluator} (h : r.overload.evaluator? T.options.mode = some e) :
    Direct.node T.context (T.assignment inputs) (.op slot name cs (some r)) = (do
      pure (e.call (← Direct.nodes T.context (T.assignment inputs) cs e.arguments), e.result)) := by
  have hchosen : chosen T.context.options.mode (.op slot name cs (some r)) =
      .ok (r.overload, e) := by
    have h' : r.overload.evaluator? T.context.options.mode = some e := h
    simp only [chosen, Expr.resolution?, h']
  rw [Direct.node, hchosen, Except.ok_bind]

/-- Every expression that has a type is simulated. -/
theorem node_simulated {e : Expr} {t : MathType} (hT : T.Closed)
    (he : Expr.HasType T.env T.vars e t) (hc : T.Covers e)
    (hlen : inputs.arguments.length = T.options.exported.length) : Simulated T inputs e := by
  induction he with
  | @group c t child ih =>
    intro b b' x type done hb h hK hd
    rw [Direct.node]
    exact ih (hc.mono (Expr.nodes_subset_group (by simp))) _ _ _ _ _ hb (node_group_run h) hK hd
  | @var name t known =>
    intro b b' x type done hb h hK hd
    obtain ⟨target, i, represented, hslot, heq⟩ := node_var_run h
    cases heq
    have hagree := variableSlot_agrees hlen hb known represented hslot hd
    rw [direct_var represented]
    refine hagree.bind (.refl b') fun done' hd' => ?_
    rw [hd']
    rfl
  | const known belongs =>
    intro b b' x type done hb h hK hd
    obtain ⟨target, w, represented, hw, heq, rfl⟩ := node_const_run h
    cases heq
    rw [hd, direct_const represented hw]
    rfl
  | @op name cs ts r length operands choice ih =>
    intro b b' x type done hb h hK hd
    obtain ⟨e, xs, b₁, i, hevaluator, hnodes, hslot, heq⟩ := node_op_run h
    cases heq
    -- all that is asked of the operands in one, for the induction along them
    have hchildren : ∀ c ∈ cs, Simulated T inputs c ∧
        ∃ t, Expr.HasType T.env T.vars c t ∧ T.Covers c := by
      intro c hmem
      obtain ⟨u, hzip⟩ := Expr.exists_mem_zip length hmem
      have hcovers : T.Covers c := hc.mono (Expr.nodes_subset_op hmem)
      exact ⟨ih c u hzip hcovers, u, operands c u hzip, hcovers⟩
    have harity := length_arguments hT length choice hevaluator
    have hcalled : T.calls e := hc.calls e ⟨_, name, cs, r, Expr.self_mem_nodes _, hevaluator⟩
    have hwanted : ∀ c ∈ e.arguments, T.Wanted c.name := fun c => .argument hcalled
    obtain ⟨-, step, functions, -, hb'⟩ := applicationSlot_run hslot
    have hext : b₁.Extends b' := by
      rw [hb']
      exact extends_push rfl rfl
    have hagree := nodes_agree hT hchildren harity hwanted hb hnodes (hext.constants.trans hK) hd
    rw [direct_op hevaluator]
    refine hagree.bind hext fun done₁ hd₁ => ?_
    obtain ⟨done', hd', hvalue⟩ := applicationSlot_computes hslot hd₁
    rw [hd']
    simp only [Agrees, boundValue, hvalue]
    rfl

/-- The values that a compiled program computes agree with direct evaluation. -/
theorem program_agrees {e : Expr} {t : MathType} {p : Program} (hT : T.Closed)
    (he : Expr.HasType T.env T.vars e t) (hc : T.Covers e) (h : program T.context e = .ok p)
    (hconst : inputs.constants = p.constants)
    (hlen : inputs.arguments.length = T.options.exported.length) :
    Agrees (Direct.node T.context (T.assignment inputs) e)
      (fun done => (p.root.fetch inputs done, p.returnType))
      (compute inputs p.bindings.toList) := by
  obtain ⟨x, b, root, b', hnode, hkeep, hbindings, hconstants, rfl, -⟩ := program_eq_ok h
  obtain ⟨-, hb, hx⟩ := node_valid hT he hc valid_empty hnode
  obtain ⟨hext, -, -⟩ := keep_valid hb hx hkeep
  have hfinal : inputs.constants = b'.constants := hconst.trans hconstants
  have hK : b'.constants.toList <+: inputs.constants.toList := hfinal ▸ List.prefix_rfl
  have hagree := node_simulated hT he hc hlen {} b x p.returnType #[] valid_empty hnode
    (hext.constants.trans hK) rfl
  rw [hbindings]
  show Agrees _ _ (computed inputs b')
  cases hd : computed inputs b with
  | error p =>
    rw [hd] at hagree
    rwa [computed_error hd hext]
  | ok done =>
    rw [hd] at hagree
    obtain ⟨hd', hfetch⟩ := keep_computes hkeep hd hK
    rw [hd']
    simp only [Agrees, hfetch]
    exact hagree

end Compile.Typing

/-- The evaluators that an environment offers for a mode: those of its overloads, and those of its
conversions. -/
inductive Environment.Offers (env : Environment) (mode : Mode) : Evaluator → Prop
  | overload {name o e} (known : o ∈ env.operators.candidates name)
      (found : o.evaluator? mode = some e) : Offers env mode e
  | conversion {e} (known : env.Converts e) : Offers env mode e

namespace Environment

theorem offers_of_calls {env : Environment} {vars : VariableTypes} {e : Expr} {t : MathType}
    {mode : Mode} {f : Evaluator} (he : e.HasType env vars t) (h : e.Calls mode f) :
    env.Offers mode f := by
  obtain ⟨slot, name, cs, r, hn, hf⟩ := h
  obtain ⟨u, hu⟩ := he.of_mem_nodes hn
  cases hu with
  | op length operands choice => exact .overload (Expr.choice_spec length choice).1 hf

open Compile in
/-- A compiled program gives what direct evaluation gives, a value or an error, on any frame. Every
evaluator that the environment offers must overwrite its place; otherwise what the slots held before
can be seen. -/
theorem evaluateIn_eq_evaluate {env : Environment} (reachable : env.Reachable)
    {options : CompileOptions} (overwrites : ∀ f, env.Offers options.mode f → f.Overwrites)
    (vars : VariableTypes) {e : Expr} (resolved : (env.resolve vars e).2.hasErrors = false)
    {unit : CompiledUnit} (compiled : env.compile options (env.resolve vars e).1 = .ok unit)
    {arguments : List Value} (length : arguments.length = options.exported.length)
    (scope : Scope) (frame : Frame) :
    (unit.evaluateIn arguments scope frame).1 =
      env.evaluate options (env.resolve vars e).1 arguments scope := by
  let T : Typing := {
    env, vars, options
    belongs := fun _ _ => True
    uses := fun _ => True
    calls := env.Offers options.mode }
  have hT : T.Closed := {
    coherent := reachable.coherent
    calls := fun source target c h _ => .conversion ⟨source, target, c, h, rfl⟩
    constant := fun _ _ _ _ _ _ _ => trivial
    conversion := fun _ _ _ _ _ _ => trivial }
  obtain ⟨t, ht⟩ := Expr.hasType_resolve resolved
  have hcovers : T.Covers (env.resolve vars e).1 :=
    ⟨fun _ _ => trivial, fun _ => offers_of_calls ht⟩
  have hprogram := compile_eq_ok compiled
  have hp := (Typing.program_typed hT ht hcovers hprogram).1
  have hlength : arguments.length = unit.program.exported.length := by rw [hp.exported, length]
  let inputs : Inputs := { arguments, scope, constants := unit.program.constants }
  have hagree : Typing.Agrees (Direct.node T.context (T.assignment inputs) _) _
      (compute inputs unit.program.bindings.toList) :=
    Typing.program_agrees hT ht hcovers hprogram rfl length
  have hevaluate : env.evaluate options (env.resolve vars e).1 arguments scope =
      (do pure (← Direct.node T.context (T.assignment inputs) (env.resolve vars e).1).1) := rfl
  rw [CompiledUnit.evaluateIn, Program.run_eq (hp.sequential hT overwrites) hlength, hevaluate]
  show _ = do pure (← Direct.node T.context (T.assignment inputs) _).1
  cases hdone : compute inputs unit.program.bindings.toList with
  | ok done =>
    rw [hdone] at hagree
    rw [hagree]
    rfl
  | error p =>
    rw [hdone] at hagree
    rw [hagree]
    rfl

end Environment

namespace Sums

theorem offers_env {mode : Mode} {f : Evaluator} (h : env.Offers mode f) : f = add ∨ f = lift := by
  cases h with
  | @overload name o _ known found =>
    rcases OperatorRegistry.mem_candidates_register known with known | ⟨rank, rfl⟩
    · cases known
    · rcases Directory.get?_insert_eq_some found with ⟨-, rfl⟩ | found
      · exact .inl rfl
      · cases found
  | conversion known =>
    obtain ⟨source, target, c, hfind, rfl⟩ := known
    rcases CastRegistry.find?_enter_eq_some hfind with ⟨-, -, rfl⟩ | hfind
    · exact .inr rfl
    · cases hfind

theorem overwrites_env {mode : Mode} {f : Evaluator} (h : env.Offers mode f) : f.Overwrites := by
  intro args place hlen
  rcases offers_env h with rfl | rfl
  · match args, hlen with
    | [a, b], _ => exact Value.write_eq _ _
  · match args, hlen with
    | [a], _ => exact Value.write_eq _ _

/-- With `x = 3` the value of `x + x + 2` is 8, whatever the slots hold. -/
theorem evaluateIn_twicePlusTwo :
    ∃ unit, env.compile {} (env.resolve .empty twicePlusTwo).1 = .ok unit ∧
      ∀ frame, (unit.evaluateIn [] (Directory.empty.insert "x" (.real 3)) frame).1.toOption =
        some (.complex ⟨8, 0⟩) := by
  have hvalue : (env.evaluate {} (env.resolve .empty twicePlusTwo).1 []
      (Directory.empty.insert "x" (.real 3))).toOption = some (.complex ⟨8, 0⟩) := by decide +kernel
  have hcompiled : (env.compile {} (env.resolve .empty twicePlusTwo).1).isOk = true := by
    decide +kernel
  cases hunit : env.compile {} (env.resolve .empty twicePlusTwo).1 with
  | error e =>
    rw [hunit] at hcompiled
    cases hcompiled
  | ok unit =>
    refine ⟨unit, rfl, fun frame => ?_⟩
    rw [Environment.evaluateIn_eq_evaluate reachable_env (fun _ => overwrites_env) .empty
      resolved_twicePlusTwo hunit rfl]
    exact hvalue

/-- A function that counts in its place, and so does not overwrite it. -/
def tick : Evaluator where
  arguments := []
  result := complex
  delivery := .inPlace
  isIdentity := false
  implementation := .function (.inPlace fun _ place => .complex (.add place.toComplex ⟨1, 0⟩))

/-- Counting as an operator. -/
def ticks : Overload where
  name := "tick"
  arguments := []
  result := mathType complex
  evaluators := Directory.empty.insert Mode.normal tick

theorem formed_ticks : ticks.Formed := by
  have bare := Overload.Formed.bare "tick" [] (mathType complex)
  exact @Overload.Formed.attach _ _ Mode.normal tick bare rfl

/-- That evaluators overwrite cannot be left out: a counter goes on from what its slot held. -/
theorem evaluateIn_ne_evaluate_tick :
    ∃ env : Environment, env.Reachable ∧ ∃ unit frame,
      (env.resolve .empty (.op .pending "tick" [] none)).2.hasErrors = false ∧
      env.compile {} (env.resolve .empty (.op .pending "tick" [] none)).1 = .ok unit ∧
      (unit.evaluateIn [] .empty frame).1 ≠
        env.evaluate {} (env.resolve .empty (.op .pending "tick" [] none)).1 [] .empty := by
  let env := ({} : Environment).after (.overload ticks formed_ticks)
  have hrun : ((env.compile {} (env.resolve .empty (.op .pending "tick" [] none)).1).toOption.map
      fun unit => (unit.evaluateIn [] .empty { slots := #[.complex ⟨1, 0⟩] }).1.toOption) =
        some (some (.complex ⟨2, 0⟩)) := by decide +kernel
  have hdirect : (env.evaluate {} (env.resolve .empty (.op .pending "tick" [] none)).1 []
      .empty).toOption = some (.complex ⟨1, 0⟩) := by decide +kernel
  cases hunit : env.compile {} (env.resolve .empty (.op .pending "tick" [] none)).1 with
  | error e =>
    rw [hunit] at hrun
    cases hrun
  | ok unit =>
    refine ⟨env, .after (.empty {}) _, unit, { slots := #[.complex ⟨1, 0⟩] }, ?_, hunit, ?_⟩
    · decide +kernel
    · intro heq
      rw [hunit] at hrun
      simp only [Except.toOption, Option.map_some, Option.some.injEq] at hrun hdirect
      rw [heq, hdirect] at hrun
      revert hrun
      decide

end Sums

end Formula
