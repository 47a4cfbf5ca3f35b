import Formula.Proofs.Program.Reads
/-!
When and how a run of a compiled expression fails, told from the expression and the values that its
variables are given.
-/

namespace Formula

/-! ### The variables that fail -/

namespace Environment

/-- A value of a variable is lifted: conversions of variables are asked for, and it is accepted as
the variable stands in the default mode, but not as it stands in the mode that is compiled for. -/
def Lifts (env : Environment) (options : CompileOptions) (t : MathType) (target : ConcreteType)
    (v : Value) : Prop :=
  options.casts = true ∧ ∃ source c, t.representation? env.config.defaultMode = some source ∧
    env.casts.concreteCast? source target = some (.convert c) ∧
    target.accepts v = false ∧ source.accepts v = true

/-- The reading of a variable fails: nothing is given for it, or what is given is checked and
neither lifted nor of its type. -/
inductive ReadFails (env : Environment) (options : CompileOptions) (a : Assignment) :
    String × Option MathType → Error → Prop
  | missing {name t?} (inner : name ∉ a.exported) (absent : a.scope.get? name = none) :
      ReadFails env options a (name, t?) (.missingVariable name)
  | refused {name t target v reason} (given : a.value? name = some v)
      (checked : options.typechecks = true)
      (represented : t.representation? options.mode = some target)
      (kept : ¬ env.Lifts options t target v) (complaint : target.complaint v = some reason) :
      ReadFails env options a (name, some t) (.wrongType name reason)

end Environment

/-! ### One variable -/

theorem Assignment.value?_eq_none {a : Assignment} (length : a.arguments.length = a.exported.length)
    {name : String} : a.value? name = none ↔ name ∉ a.exported ∧ a.scope.get? name = none := by
  have hlookup : (a.exported.zip a.arguments).lookup name = none ↔ name ∉ a.exported := by
    rw [Compile.Typing.lookup_zip length, Option.map_eq_none_iff, List.findIdx?_eq_none_iff]
    constructor
    · intro h hmem
      simpa using h name hmem
    · intro h other hother
      have hne : other ≠ name := fun heq => h (heq ▸ hother)
      simpa using hne
  rw [value?, Option.or_eq_none_iff, hlookup]

section Variable

open Compile Environment

variable {env : Environment} {options : CompileOptions} {t : MathType} {target : ConcreteType}
  {conversion? : Option Lift} {v : Value} {a : Assignment} {name : String} {err : Error}

/-- A value takes the conversion of its variable exactly if it is lifted. -/
theorem filter_eq_none
    (h : variableConversion (env.compileContext options) t target = .ok conversion?) :
    (conversion?.filter fun l => !target.accepts v && l.source.accepts v) = none ↔
      ¬ env.Lifts options t target v := by
  unfold variableConversion at h
  split at h
  · rename_i hcasts
    simp only [Except.bind_eq_ok, Except.pure_eq_ok, representation_eq_ok, castBetween_eq_ok] at h
    obtain ⟨source, hsource, cast, hcast, rfl⟩ := h
    have hlifts : env.Lifts options t target v ↔ ∃ c, cast = .convert c ∧
        target.accepts v = false ∧ source.accepts v = true := by
      constructor
      · rintro ⟨-, source', c, hsource', hcast', hv⟩
        obtain rfl : source = source' := Option.some.inj (hsource.symm.trans hsource')
        exact ⟨c, Option.some.inj (hcast.symm.trans hcast'), hv⟩
      · rintro ⟨c, rfl, hv⟩
        exact ⟨hcasts, source, c, hsource, hcast, hv⟩
    rw [hlifts]
    cases cast with
    | identity => simp [Cast.conversion?]
    | convert c => simp [Cast.conversion?, Option.filter_some]
  · rename_i hcasts
    obtain rfl := Except.pure_eq_ok.1 h
    exact iff_of_true rfl fun hlifts => hcasts hlifts.1

/-- The direct reading of a variable fails as is told from what it is given. -/
theorem variableValue_eq_error (length : a.arguments.length = a.exported.length)
    (represented : t.representation? options.mode = some target)
    (converted : variableConversion (env.compileContext options) t target = .ok conversion?) :
    Direct.variableValue (env.compileContext options) a name t target = .error err ↔
      env.ReadFails options a (name, some t) err := by
  rw [Direct.variableValue, converted, Except.ok_bind]
  cases hgiven : a.value? name with
  | none =>
    have habsent := (Assignment.value?_eq_none length).1 hgiven
    constructor
    · rintro ⟨⟩
      exact .missing habsent.1 habsent.2
    · intro h
      cases h with
      | missing inner absent => rfl
      | refused given =>
        rw [hgiven] at given
        cases given
  | some v =>
    have hmissing : ¬ (name ∉ a.exported ∧ a.scope.get? name = none) := by
      rw [← Assignment.value?_eq_none length, hgiven]
      exact Option.some_ne_none v
    have hfails : env.ReadFails options a (name, some t) err ↔ options.typechecks = true ∧
        ¬ env.Lifts options t target v ∧
        ∃ reason, target.complaint v = some reason ∧ err = .wrongType name reason := by
      constructor
      · intro h
        cases h with
        | missing inner absent => exact absurd ⟨inner, absent⟩ hmissing
        | refused given checked represented' kept complaint =>
          obtain rfl := Option.some.inj (hgiven.symm.trans given)
          obtain rfl := Option.some.inj (represented.symm.trans represented')
          exact ⟨checked, kept, _, complaint, rfl⟩
      · rintro ⟨checked, kept, reason, complaint, rfl⟩
        exact .refused hgiven checked represented kept complaint
    rw [hfails, ← filter_eq_none converted]
    simp only [Direct.received]
    cases conversion?.filter fun l => !target.accepts v && l.source.accepts v with
    | some l => simp
    | none =>
      have hchecks : (if (env.compileContext options).options.typechecks then target.complaint v
          else none) = if options.typechecks then target.complaint v else none := rfl
      rw [hchecks]
      by_cases hchecked : options.typechecks = true
      · rw [if_pos hchecked]
        cases target.complaint v <;> simp [hchecked, eq_comm]
      · rw [if_neg hchecked]
        simp [hchecked]

end Variable

/-! ### The first that fails -/

section First

variable {α β : Type} {R : α → β → Prop} {f : α → Option Error} {P : β → Error → Prop}
  {xs : List α} {ys : List β} {err : Error}

theorem findSome?_eq_some_of_forall₂ (h : List.Forall₂ R xs ys)
    (hR : ∀ x y, R x y → ∀ err, f x = some err ↔ P y err) :
    xs.findSome? f = some err ↔
      ∃ before y after, ys = before ++ y :: after ∧ (∀ z ∈ before, ∀ err, ¬ P z err) ∧
        P y err := by
  induction h with
  | nil => simp
  | @cons x y xs ys hxy _ ih =>
    rw [List.findSome?_cons]
    cases hx : f x with
    | some err' =>
      have hy : P y err' := (hR x y hxy err').1 hx
      constructor
      · rintro ⟨⟩
        exact ⟨[], y, ys, rfl, by simp, hy⟩
      · rintro ⟨before, z, after, heq, hbefore, hz⟩
        -- the first of all fails, so none comes before the one that is found
        cases before with
        | nil =>
          cases heq
          exact hx.symm.trans ((hR x y hxy err).2 hz)
        | cons z' before =>
          cases heq
          exact absurd hy (hbefore y List.mem_cons_self err')
    | none =>
      have hy : ∀ err, ¬ P y err := by
        intro err' hy
        have := (hR x y hxy err').2 hy
        rw [hx] at this
        cases this
      simp only
      rw [ih]
      constructor
      · rintro ⟨before, z, after, rfl, hbefore, hz⟩
        exact ⟨y :: before, z, after, rfl, List.forall_mem_cons.2 ⟨hy, hbefore⟩, hz⟩
      · rintro ⟨before, z, after, heq, hbefore, hz⟩
        cases before with
        | nil =>
          cases heq
          exact absurd hz (hy err)
        | cons z' before =>
          cases heq
          exact ⟨before, z, after, rfl, (List.forall_mem_cons.1 hbefore).2, hz⟩

theorem findSome?_isSome_of_forall₂ (h : List.Forall₂ R xs ys)
    (hR : ∀ x y, R x y → ∀ err, f x = some err ↔ P y err) :
    (∃ err, xs.findSome? f = some err) ↔ ∃ y ∈ ys, ∃ err, P y err := by
  induction h with
  | nil => simp
  | @cons x y xs ys hxy _ ih =>
    rw [List.findSome?_cons]
    simp only [List.exists_mem_cons_iff, ← ih, ← hR x y hxy]
    cases f x <;> simp

theorem exists_mem_of_forall₂ (h : List.Forall₂ R xs ys) {x : α} (hx : x ∈ xs) :
    ∃ y ∈ ys, R x y := by
  induction h with
  | nil => cases hx
  | @cons x' y xs ys hxy _ ih =>
    rcases List.mem_cons.1 hx with rfl | hx
    · exact ⟨y, List.mem_cons_self, hxy⟩
    · obtain ⟨z, hz, hxz⟩ := ih hx
      exact ⟨z, List.mem_cons_of_mem y hz, hxz⟩

end First

/-! ### Readings of a compiled program -/

theorem VariableRead.run_congr {r : VariableRead} {inputs inputs' : Inputs}
    (h : r.value inputs = r.value inputs') (place : Value) :
    r.run inputs place = r.run inputs' place := by
  rw [run, run, h]

/-- Where the readings among bindings are given the same values, the bindings do the same. -/
theorem Binding.alike_of_reads {inputs inputs' : Inputs} {bs : List Binding}
    (reads : ∀ r ∈ readsOf bs, r.value inputs = r.value inputs')
    (constants : inputs.constants = inputs'.constants) :
    List.Forall₂ (Alike inputs inputs') bs bs := by
  rw [List.forall₂_same]
  intro b hb
  refine ⟨rfl, fun slots place => ?_⟩
  cases hread : b.step.read? with
  | none => exact Step.run_congr hread constants slots place
  | some r =>
    have hmem : r ∈ readsOf bs := List.mem_filterMap.2 ⟨b, hb, hread⟩
    rw [Step.read?_eq_some.1 hread]
    exact VariableRead.run_congr (reads r hmem) place

namespace Compile.Typing

variable {T : Typing} {r : VariableRead} {v : String × Option MathType} {inputs : Inputs}

theorem ReadsAs.fault?_eq_some {err : Error} (hr : T.ReadsAs r v)
    (length : inputs.arguments.length = T.options.exported.length) :
    r.fault? inputs = some err ↔ T.env.ReadFails T.options (T.assignment inputs) v err := by
  obtain ⟨t, target, conversion?, htype, represented, converted, hstep⟩ := hr
  obtain ⟨name, _⟩ := v
  obtain rfl : _ = some t := htype
  have hreceive : r.receive inputs =
      Direct.variableValue T.context (T.assignment inputs) name t target := by
    rw [← @value_readOf T inputs #[] _ _ _ _ length converted, hstep]
    rfl
  rw [VariableRead.fault?_eq_some, hreceive]
  exact variableValue_eq_error length represented converted

/-- A variable is given what stands under its name. -/
theorem ReadsAs.value_eq (hr : T.ReadsAs r v)
    (length : inputs.arguments.length = T.options.exported.length) :
    r.value inputs = match (T.assignment inputs).value? v.1 with
      | some w => .ok w
      | none => .error (.missingVariable v.1) := by
  rw [VariableRead.value, hr.position?_eq, hr.name_eq, Assignment.value?]
  simp only [assignment, lookup_zip length]
  cases T.options.exported.findIdx? (· == v.1) with
  | some i => rfl
  | none => rfl

theorem ReadsAs.value_eq_ok {w : Value} (hr : T.ReadsAs r v)
    (length : inputs.arguments.length = T.options.exported.length) :
    r.value inputs = .ok w ↔ (T.assignment inputs).value? v.1 = some w := by
  rw [hr.value_eq length]
  cases (T.assignment inputs).value? v.1 <;> simp

theorem ReadsAs.value_congr {arguments : List Value} {scope scope' : Scope}
    {constants : Array Value} (hr : T.ReadsAs r v)
    (agree : v.1 ∉ T.options.exported → scope.get? v.1 = scope'.get? v.1) :
    r.value { arguments, scope, constants } =
      r.value { arguments, scope := scope', constants } := by
  rw [VariableRead.value, VariableRead.value, hr.position?_eq, hr.name_eq]
  cases hposition : T.options.exported.findIdx? (· == v.1) with
  | some i => rfl
  | none =>
    have hinner : v.1 ∉ T.options.exported := by
      intro hmem
      simpa using List.findIdx?_eq_none_iff.1 hposition v.1 hmem
    simp only [agree hinner]

theorem map_name_of_reads {rs : List VariableRead} {vs : List (String × Option MathType)}
    (h : List.Forall₂ T.ReadsAs rs vs) : rs.map (·.name) = vs.map Prod.fst := by
  induction h with
  | nil => rfl
  | cons hr _ ih => rw [List.map_cons, List.map_cons, ih, hr.name_eq]

end Compile.Typing

namespace Environment

open Compile

section Compiled

variable {env : Environment} {vars : VariableTypes} {options : CompileOptions} {e : Expr}
  {t : MathType} {unit : CompiledUnit} {arguments : List Value} {scope scope' : Scope}
  {frame : Frame} {err : Error}
  (coherent : env.Coherent) (he : e.HasType env vars t)
  (compiled : env.compile options e = .ok unit)

include coherent he compiled

theorem reads_of_compile : List.Forall₂ (env.offering vars options).ReadsAs
    (readsOf unit.program.bindings.toList) e.usedVariables :=
  Typing.program_reads (closed_offering coherent) he (compile_eq_ok compiled)

theorem exported_of_compile : unit.program.exported = options.exported :=
  (ofProgram_offering coherent he compiled).exported

/-- With as many arguments as are asked for, a run fails with the error of the first used variable
whose reading fails. -/
theorem evaluateIn_eq_error (length : arguments.length = options.exported.length) :
    (unit.evaluateIn arguments scope frame).1 = .error err ↔
      ∃ before v after, e.usedVariables = before ++ v :: after ∧
        (∀ u ∈ before, ∀ err', ¬ env.ReadFails options
          { exported := options.exported, arguments, scope } u err') ∧
        env.ReadFails options { exported := options.exported, arguments, scope } v err := by
  have hlength := length.trans (congrArg _ (exported_of_compile coherent he compiled).symm)
  rw [CompiledUnit.evaluateIn, Program.run_fst_eq_error hlength]
  exact findSome?_eq_some_of_forall₂ (reads_of_compile coherent he compiled)
    fun r v hr err => hr.fault?_eq_some length

theorem evaluateIn_fails (length : arguments.length = options.exported.length) :
    (∃ err, (unit.evaluateIn arguments scope frame).1 = .error err) ↔
      ∃ v ∈ e.usedVariables, ∃ err,
        env.ReadFails options { exported := options.exported, arguments, scope } v err := by
  have hlength := length.trans (congrArg _ (exported_of_compile coherent he compiled).symm)
  simp only [CompiledUnit.evaluateIn, Program.run_fst_eq_error hlength]
  exact findSome?_isSome_of_forall₂ (reads_of_compile coherent he compiled)
    fun r v hr err => hr.fault?_eq_some length

/-- Of a scope only the used variables that are not passed as arguments matter. -/
theorem evaluateIn_congr (agree : ∀ v ∈ e.usedVariables, v.1 ∉ options.exported →
      scope.get? v.1 = scope'.get? v.1) :
    unit.evaluateIn arguments scope frame = unit.evaluateIn arguments scope' frame := by
  by_cases length : arguments.length = options.exported.length
  · have hlength := length.trans (congrArg _ (exported_of_compile coherent he compiled).symm)
    apply Program.run_congr hlength hlength rfl rfl
    apply Binding.alike_of_reads
    · intro r hr
      obtain ⟨v, hv, hrv⟩ := exists_mem_of_forall₂ (reads_of_compile coherent he compiled) hr
      exact hrv.value_congr (agree v hv)
    · rfl
  · rw [evaluateIn_eq_argumentCount coherent he compiled length,
      evaluateIn_eq_argumentCount coherent he compiled length]

end Compiled

/-- A compiled expression reads its used variables in their order, and nothing else that it is given
matters. With as many arguments as are asked for, a run fails exactly if the reading of a used
variable does, and the first that fails is the error; with another number it leaves the frame alone.
On scopes that agree on the used variables that are not passed as arguments, runs from one frame
give the same and leave the same. -/
theorem run_decided_by_reads {env : Environment} (reachable : env.Reachable) (vars : VariableTypes)
    {e : Expr} (resolved : (env.resolve vars e).2.hasErrors = false) {options : CompileOptions}
    {unit : CompiledUnit} (compiled : env.compile options (env.resolve vars e).1 = .ok unit) :
    (readsOf unit.program.bindings.toList).map (·.name) =
      (env.resolve vars e).1.usedVariables.map Prod.fst ∧
    (∀ arguments scope frame, arguments.length = options.exported.length →
      ((∃ err, (unit.evaluateIn arguments scope frame).1 = .error err) ↔
        ∃ v ∈ (env.resolve vars e).1.usedVariables, ∃ err,
          env.ReadFails options { exported := options.exported, arguments, scope } v err) ∧
      ∀ err, (unit.evaluateIn arguments scope frame).1 = .error err ↔
        ∃ before v after, (env.resolve vars e).1.usedVariables = before ++ v :: after ∧
          (∀ u ∈ before, ∀ err', ¬ env.ReadFails options
            { exported := options.exported, arguments, scope } u err') ∧
          env.ReadFails options { exported := options.exported, arguments, scope } v err) ∧
    (∀ arguments scope frame, arguments.length ≠ options.exported.length →
      unit.evaluateIn arguments scope frame =
        (.error (.argumentCount options.exported.length arguments.length), frame)) ∧
    ∀ arguments scope scope' frame,
      (∀ v ∈ (env.resolve vars e).1.usedVariables, v.1 ∉ options.exported →
        scope.get? v.1 = scope'.get? v.1) →
      unit.evaluateIn arguments scope frame = unit.evaluateIn arguments scope' frame := by
  have coherent := reachable.coherent
  obtain ⟨t, ht⟩ := Expr.hasType_resolve resolved
  refine ⟨Typing.map_name_of_reads (reads_of_compile coherent ht compiled), ?_, ?_, ?_⟩
  · intro arguments scope frame length
    exact ⟨evaluateIn_fails coherent ht compiled length,
      fun err => evaluateIn_eq_error coherent ht compiled length⟩
  · intro arguments scope frame length
    exact evaluateIn_eq_argumentCount coherent ht compiled length scope frame
  · intro arguments scope scope' frame agree
    exact evaluateIn_congr coherent ht compiled agree

end Environment

namespace Sums

/-- The expression `x + y + x`. -/
def crossed : Expr :=
  .op .pending "+" [.op .pending "+" [.var .pending "x", .var .pending "y"] none,
    .var .pending "x"] none

/-- Where `x` is missing and `y` is no number, it is the lack of `x` that is reported, though `y` is
the argument that is passed. -/
theorem run_crossed_without_x :
    ∃ unit, env.compile { typechecks := true, exported := ["y"] }
        (env.resolve .empty crossed).1 = .ok unit ∧
      ∀ frame, (unit.evaluateIn [.bool true] .empty frame).1 = .error (.missingVariable "x") := by
  have hresolved : (env.resolve .empty crossed).2.hasErrors = false := by decide +kernel
  have hcompiled : (env.compile { typechecks := true, exported := ["y"] }
      (env.resolve .empty crossed).1).isOk = true := by decide +kernel
  have hnames : (env.resolve .empty crossed).1.usedVariables.map Prod.fst = ["x", "y"] := by
    decide +kernel
  obtain ⟨unit, hunit⟩ := Except.exists_of_isOk hcompiled
  refine ⟨unit, hunit, fun frame => ?_⟩
  obtain ⟨-, hruns, -, -⟩ := Environment.run_decided_by_reads reachable_env .empty hresolved hunit
  rw [(hruns [.bool true] .empty frame rfl).2]
  obtain ⟨⟨x, t?⟩, after, hused, rfl, -⟩ := List.map_eq_cons_iff.1 hnames
  exact ⟨[], (_, t?), after, hused, by simp, .missing (by decide) rfl⟩

end Sums

end Formula
