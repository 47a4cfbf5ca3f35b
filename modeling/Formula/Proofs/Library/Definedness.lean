import Formula.Proofs.Library.Ranges
import Formula.Proofs.Program.Faults
import Formula.Proofs.Program.TwoModes
/-!
What is known to be defined, of expressions compiled for the mode `interval`: no flag is made up on
the way from the ranges of the variables to the range of the expression.
-/

namespace Formula

open Info Library

/-- An expression is a variable under groups. -/
inductive Expr.IsVariable : Expr → Prop
  | var {slot name} : IsVariable (.var slot name)
  | group {slot c} (child : IsVariable c) : IsVariable (.group slot [c])

/-- Resolving changes the types in a tree and not its shape. -/
theorem Expr.isVariable_resolve {env : Environment} {vars : VariableTypes} {e : Expr} :
    (env.resolve vars e).1.IsVariable ↔ e.IsVariable := by
  change (Expr.resolve env vars e).1.IsVariable ↔ e.IsVariable
  induction e with
  | var slot name => exact iff_of_true .var .var
  | const slot v typeName text => exact iff_of_false nofun nofun
  | op slot name cs r ih =>
    rw [resolve_op]
    exact iff_of_false nofun nofun
  | group slot cs ih =>
    rw [resolve_group]
    constructor
    · intro h
      generalize hcs : cs.map (fun c => (Expr.resolve env vars c).1) = cs' at h
      cases h with
      | group child =>
        obtain ⟨c, rfl, rfl⟩ := List.map_eq_singleton_iff.1 hcs
        exact .group ((ih c List.mem_cons_self).1 child)
    · intro h
      cases h with
      | group child => exact .group ((ih _ List.mem_cons_self).2 child)

namespace Assignment

/-- The flags of the ranges that some variables are given. -/
def flags (a : Assignment) (xs : List (String × Option MathType)) : List UInt8 :=
  xs.filterMap fun x => (a.value? x.1).map Value.flags

/-- Each of some variables is given a range of values of its type, with well-formed flags. -/
def GivesRanges (a : Assignment) (xs : List (String × Option MathType)) : Prop :=
  ∀ name t, (name, some t) ∈ xs →
    ∃ w, a.value? name = some w ∧ Belongs (ranged t.name) w ∧ WellFormed w.flags

variable {a : Assignment} {xs ys : List (String × Option MathType)} {i : UInt8}

theorem mem_flags : i ∈ a.flags xs ↔ ∃ x ∈ xs, ∃ w, a.value? x.1 = some w ∧ w.flags = i := by
  simp [flags]

theorem flags_flatMap {cs : List Expr} (h : i ∈ a.flags (cs.flatMap Expr.occurrences)) :
    ∃ c ∈ cs, i ∈ a.flags c.occurrences := by
  obtain ⟨x, hx, hw⟩ := mem_flags.1 h
  obtain ⟨c, hc, hxc⟩ := List.mem_flatMap.1 hx
  exact ⟨c, hc, mem_flags.2 ⟨x, hxc, hw⟩⟩

theorem GivesRanges.mono (h : a.GivesRanges xs) (hys : ys ⊆ xs) : a.GivesRanges ys :=
  fun name t hmem => h name t (hys hmem)

end Assignment

/-! ### Variables -/

namespace Environment

section Variable

variable {config : Config} {vars : VariableTypes} {options : CompileOptions} {t : MathType}
  {target : ConcreteType} {name key : String} {w : Value}
  (normal : config.defaultMode = Mode.normal)
  (known : (standard config).types.mathematical.get? key = some t)
  (range : t.name ∈ ["bool", "int", "real"]) (belongs : Belongs (ranged t.name) w)

include normal known range belongs

/-- A range is nothing that a variable could be given in the mode `normal`. -/
theorem not_lifts_range : ¬ (standard config).Lifts options t target w := by
  rintro ⟨-, source, -, hsource, -, -, haccepts⟩
  rw [config_standard, normal] at hsource
  have hplain : Plain source := (furnished_standard config).mathematical key t known source hsource
  have hapart := apart_of_ranged (ranged_mem range) hplain.2
  exact hapart.not_belongs belongs ((hplain.accepts_iff w).1 haccepts)

theorem variableValue_range {a : Assignment} {v : Value} (given : a.value? name = some w)
    (h : Direct.variableValue ((standard config).compileContext options) a name t target = .ok v) :
    v = w := by
  unfold Direct.variableValue at h
  rw [given] at h
  obtain ⟨conversion?, hconversion, hreceived⟩ := Except.bind_eq_ok.1 h
  have hkept := (filter_eq_none (v := w) hconversion).2
    (not_lifts_range normal known range belongs)
  exact Direct.received_of_kept hkept hreceived

end Variable

/-! ### Direct evaluation -/

/-- A value of an expression is a range of its type with flags that are honest about those of its
variables, and undefined where one of these is, if it is not one of them. -/
structure HonestAt (a : Assignment) (e : Expr) (t : MathType) (v : Value) (c : ConcreteType) :
    Prop where
  name : c.name = ranged t.name
  range : t.name ∈ ["bool", "int", "real"]
  belongs : Belongs (ranged t.name) v
  honest : Info.Honest (a.flags e.occurrences) v.flags (e.IsVariable ∨ v.Undefined)

section Node

variable {config : Config} {vars : VariableTypes} {options : CompileOptions} {a : Assignment}

/-- Ranges are handed to an evaluator as they are. -/
theorem nodes_range {P : Expr → Value → Prop} {cs : List Expr} {targets : List ConcreteType}
    {vs : List Value} (length : cs.length = targets.length)
    (h : Direct.nodes ((standard config).compileContext options) a cs targets = .ok vs)
    (hcs : ∀ c ∈ cs, ∀ v source,
      Direct.node ((standard config).compileContext options) a c = .ok (v, source) →
        source.name ∈ rangedNames ∧ P c v) : List.Forall₂ P cs vs := by
  induction cs generalizing targets vs with
  | nil =>
    have htargets : targets = [] := List.eq_nil_of_length_eq_zero length.symm
    rw [htargets, Direct.nodes] at h
    · cases h
      exact .nil
    · simp
  | cons c cs ih =>
    obtain ⟨target, targets, rfl⟩ := List.exists_cons_of_length_eq_add_one length.symm
    obtain ⟨v, source, k, ws, hv, hk, hws, rfl⟩ := Direct.nodes_cons_eq_ok h
    rw [List.forall_mem_cons] at hcs
    rw [compileContext_casts] at hk
    obtain ⟨hranged, hP⟩ := hcs.1 v source hv
    rw [carry_range hk hranged]
    exact .cons hP (ih (Nat.succ.inj length) hws hcs.2)

/-- The flags of the value of an operand are well-formed and within those of its variables. -/
def Bounded (a : Assignment) (c : Expr) (v : Value) : Prop :=
  WellFormed v.flags ∧ ∀ i ∈ a.flags c.occurrences, Within v.flags i

/-- An evaluator is honest about its operands, and so about their variables. -/
theorem honest_application {name : String} {o : Overload} {f : Evaluator}
    (candidate : o ∈ (standard config).operators.candidates name)
    (found : o.evaluator? Mode.interval = some f) {cs : List Expr} {vs : List Value}
    (length : cs.length = f.arity) (bounded : List.Forall₂ (Bounded a) cs vs) :
    Belongs f.result.name (f.call vs) ∧
      Info.Honest (a.flags (cs.flatMap Expr.occurrences)) (f.call vs).flags
        (f.call vs).Undefined := by
  have hwellFormed : ∀ v ∈ vs, WellFormed v.flags := by
    intro v hv
    obtain ⟨c, -, hinfo, -⟩ := exists_mem_of_forall₂ bounded.flip hv
    exact hinfo
  have hlength : vs.length = f.arity := bounded.length_eq.symm.trans length
  obtain ⟨hbelongs, honest⟩ := honest_call candidate found hlength hwellFormed
  refine ⟨hbelongs, honest.mono (fun i hi => ?_) id⟩
  obtain ⟨c, hc, hi⟩ := Assignment.flags_flatMap hi
  obtain ⟨v, hv, -, hwithin⟩ := exists_mem_of_forall₂ bounded hc
  exact ⟨v.flags, List.mem_map_of_mem hv, hwithin i hi⟩

/-- Direct evaluation for ranges is honest, by induction on the expression. -/
theorem honestAt_node (normal : config.defaultMode = Mode.normal)
    (mode : options.mode = Mode.interval) {e : Expr} {t : MathType}
    (he : e.HasType (standard config) vars t) (given : a.GivesRanges e.occurrences) {v : Value}
    {c : ConcreteType}
    (h : Direct.node ((standard config).compileContext options) a e = .ok (v, c)) :
    HonestAt a e t v c := by
  have coherent := (reachable_standard config).coherent
  induction he generalizing v c with
  | @group c' t child ih =>
    rw [Direct.node] at h
    have hoccurrences : (Expr.group (.resolved t) [c']).occurrences = c'.occurrences := by simp
    rw [hoccurrences] at given
    obtain ⟨name, range, belongs, honest⟩ := ih given h
    refine ⟨name, range, belongs, ?_⟩
    rw [hoccurrences]
    exact honest.mono (fun j hj => ⟨j, hj, .refl j⟩) (Or.imp_left .group)
  | @var name t known =>
    obtain ⟨hc, hv⟩ := Direct.node_var_eq_ok h
    rw [compileContext_options, mode] at hc
    obtain ⟨hname, hrange⟩ := name_of_represents (.known known) ⟨c, hc, rfl⟩
    obtain ⟨w, hw, hbelongs, hinfo⟩ := given name t (List.mem_singleton_self _)
    obtain rfl := variableValue_range normal known hrange hbelongs hw hv
    refine ⟨hname, hrange, hbelongs, hinfo, fun i hi => ?_, fun _ => .inl .var⟩
    obtain ⟨x, hx, w, hw', rfl⟩ := Assignment.mem_flags.1 hi
    obtain rfl := List.mem_singleton.1 hx
    obtain rfl := Option.some.inj (hw.symm.trans hw')
    exact .refl v.flags
  | @const x typeName text t known belongs =>
    obtain ⟨source, k, hsource, hc, hk, rfl⟩ := Direct.node_const_eq_ok h
    rw [compileContext_options, mode] at hc
    obtain ⟨hname, hrange⟩ := name_of_represents (.known known) ⟨c, hc, rfl⟩
    rw [compileContext_casts] at hk
    rw [compileContext_defaultMode, config_standard, normal] at hsource
    have hplain : Plain source :=
      (furnished_standard config).mathematical typeName t known source hsource
    obtain ⟨hbelongs, hinfo⟩ := carry_plain (v := x) hk hplain.2 (hname ▸ ranged_mem hrange)
    -- there are no variables to be honest about
    refine ⟨hname, hrange, hname ▸ hbelongs, hinfo, fun i hi => ?_, fun hzero => ?_⟩
    · cases hi
    · cases hzero
  | @op name cs ts r length operands choice ih =>
    obtain ⟨f, vs, found, hvs, rfl, rfl⟩ := Direct.node_op_eq_ok h
    obtain ⟨candidate, hlength⟩ := Expr.choice_spec length choice
    have represented := coherent.represented name _ candidate
    have harity : cs.length = f.arguments.length :=
      hlength.trans (represented.arguments _ f found).length_eq
    rw [Expr.occurrences_op] at given
    have hbounded : List.Forall₂ (Bounded a) cs vs := by
      refine nodes_range harity hvs fun c hc v source hv => ?_
      obtain ⟨u, hzip⟩ := Expr.exists_mem_zip length hc
      have hoccurrences : c.occurrences ⊆ cs.flatMap Expr.occurrences :=
        fun x hx => List.mem_flatMap.2 ⟨c, hc, hx⟩
      have hc' := ih c u hzip (given.mono hoccurrences) hv
      refine ⟨?_, hc'.honest.wellFormed, hc'.honest.within⟩
      rw [hc'.name]
      exact ranged_mem hc'.range
    rw [compileContext_options, mode] at found
    obtain ⟨hbelongs, honest⟩ := honest_application candidate found harity hbounded
    obtain ⟨hname, hrange⟩ := name_of_represents (.result candidate)
      (represented.result _ f found)
    refine ⟨hname, hrange, hname ▸ hbelongs, ?_⟩
    rw [Expr.occurrences_op]
    exact honest.mono (fun i hi => ⟨i, hi, .refl i⟩) .inr

end Node

/-! ### Runs -/

/-- What a run over ranges may come to: a range of the type of the expression with flags that are
honest about those of its variables, undefined where one of these is unless it is all there is; or
the refusal of a variable that is checked and is to range between integers and does not. -/
inductive RangeOutcome (options : CompileOptions) (a : Assignment) (e : Expr) :
    Except Error Value → Prop
  | value {t v} (typed : e.slot = .resolved t) (belongs : Belongs (ranged t.name) v)
      (honest : Info.Honest (a.flags e.usedVariables) v.flags (e.IsVariable ∨ v.Undefined)) :
      RangeOutcome options a e (.ok v)
  | refused {name t w reason} (checked : options.typechecks = true)
      (used : (name, some t) ∈ e.usedVariables) (integer : t.name = "int")
      (given : a.value? name = some w) (complaint : integerIntervalComplaint w = some reason) :
      RangeOutcome options a e (.error (.wrongType name reason))

section Run

variable {config : Config} {vars : VariableTypes} {options : CompileOptions} {e : Expr}
  {t : MathType} {unit : CompiledUnit} {arguments : List Value} {scope : Scope}

/-- Where ranges are given, a variable can only fail by being refused. -/
theorem refused_of_readFails (mode : options.mode = Mode.interval)
    (he : e.HasType (standard config) vars t) {a : Assignment}
    (length : a.arguments.length = a.exported.length) (given : a.GivesRanges e.usedVariables)
    {x : String × Option MathType} (hx : x ∈ e.usedVariables) {err : Error}
    (fails : (standard config).ReadFails options a x err) :
    RangeOutcome options a e (.error err) := by
  obtain ⟨name, t?⟩ := x
  obtain ⟨u, rfl, known⟩ := he.known_of_mem hx
  obtain ⟨w, hw, hbelongs, -⟩ := given name u hx
  cases fails with
  | missing inner absent =>
    rw [(Assignment.value?_eq_none length).2 ⟨inner, absent⟩] at hw
    cases hw
  | @refused _ _ target v reason hv checked represented kept complaint =>
    obtain rfl := Option.some.inj (hw.symm.trans hv)
    rw [mode] at represented
    have hbuilt := (furnished_standard config).representations _ u known _ target represented
    obtain ⟨hname, hrange⟩ := name_of_represents (.known known) ⟨target, represented, rfl⟩
    obtain ⟨hinteger, hcomplaint⟩ := complaint_range hbuilt (hname ▸ ranged_mem hrange)
      (hname ▸ hbelongs) complaint
    have hnames : ∀ n ∈ ["bool", "int", "real"], ranged n = "interval_int" → n = "int" := by decide
    have hint : u.name = "int" := hnames u.name hrange (hname.symm.trans hinteger)
    exact .refused checked hx hint hw hcomplaint

theorem rangeOutcome_evaluateIn (normal : config.defaultMode = Mode.normal)
    (mode : options.mode = Mode.interval) (he : e.HasType (standard config) vars t)
    (compiled : (standard config).compile options e = .ok unit)
    (length : arguments.length = options.exported.length)
    (given : Assignment.GivesRanges { exported := options.exported, arguments, scope }
      e.usedVariables) (frame : Frame) :
    RangeOutcome options { exported := options.exported, arguments, scope } e
      (unit.evaluateIn arguments scope frame).1 := by
  have coherent := (reachable_standard config).coherent
  cases hresult : (unit.evaluateIn arguments scope frame).1 with
  | error err =>
    obtain ⟨before, x, after, hused, -, hfails⟩ :=
      (evaluateIn_eq_error coherent he compiled length).1 hresult
    exact refused_of_readFails mode he length given (hused ▸ by simp) hfails
  | ok v =>
    rw [evaluateIn_eq_direct coherent he compiled
      (fun _ => (furnished_standard config).overwrites) length] at hresult
    obtain ⟨c, hnode⟩ := evaluate_eq_ok hresult
    have hoccurrences : Assignment.GivesRanges
        { exported := options.exported, arguments, scope } e.occurrences := by
      intro name u hmem
      obtain ⟨u', hu, hn, -⟩ := he.occurrence hmem
      exact given name u (he.mem_usedVariables.2 ⟨u', hu, hn⟩)
    obtain ⟨-, -, hbelongs, hhonest⟩ := honestAt_node normal mode he hoccurrences hnode
    refine .value he.slot_eq hbelongs (hhonest.mono (fun i hi => ⟨i, ?_, .refl i⟩) id)
    obtain ⟨x, hx, hw⟩ := Assignment.mem_flags.1 hi
    rw [Expr.usedVariables_eq] at hx
    exact Assignment.mem_flags.2 ⟨x, (Expr.mem_of_mem_foldl hx).resolve_left List.not_mem_nil, hw⟩

end Run

/-- Flags are never made up. A run over ranges with well-formed flags gives a range with
well-formed flags within those of every used variable, and the undefined range if one of these is
undefined, unless the expression is that variable; if variables are checked, it may refuse one that
is to range between integers instead. So does each operation on intervals, whatever the ends are
and whatever is computed from them. -/
theorem definedness_not_made_up :
    (∀ {config : Config}, config.defaultMode = Mode.normal → ∀ (vars : VariableTypes) {e : Expr},
      ((standard config).resolve vars e).2.hasErrors = false →
      ∀ {options : CompileOptions}, options.mode = Mode.interval → ∀ {unit : CompiledUnit},
      (standard config).compile options ((standard config).resolve vars e).1 = .ok unit →
      ∀ {arguments : List Value}, arguments.length = options.exported.length → ∀ {scope : Scope},
      Assignment.GivesRanges { exported := options.exported, arguments, scope }
        ((standard config).resolve vars e).1.usedVariables → ∀ frame,
      RangeOutcome options { exported := options.exported, arguments, scope }
        ((standard config).resolve vars e).1 (unit.evaluateIn arguments scope frame).1) ∧
    ∀ {α : Type} [Elementary α],
      (∀ f ∈ [Interval.neg, Interval.abs, Interval.exp, Interval.ln, Interval.sqrt],
        ∀ a : Interval α, WellFormed a.info →
          Info.Honest [a.info] (f a).info (f a = .undefined)) ∧
      (∀ (n : Int32) (a : Interval α), WellFormed a.info →
        Info.Honest [a.info] (a.powInt n).info (a.powInt n = .undefined)) ∧
      (∀ f ∈ [Interval.add, Interval.sub, Interval.mul, Interval.div, Interval.pow,
          Interval.intPow], ∀ a b : Interval α,
        Info.Honest [a.info, b.info] (f a b).info (f a b = .undefined)) ∧
      ∀ f ∈ [Interval.less, Interval.greater], ∀ a b : Interval α,
        Info.Honest [a.info, b.info] (f a b).info (f a b = .undefined) := by
  constructor
  · intro config normal vars e resolved options mode unit compiled arguments length scope given
    obtain ⟨t, ht⟩ := Expr.hasType_resolve resolved
    exact rangeOutcome_evaluateIn normal mode ht compiled length given
  · intro α _
    simp only [List.forall_mem_cons, List.not_mem_nil, false_imp_iff, implies_true, and_true]
    refine ⟨⟨?_, ?_, ?_, ?_, ?_⟩, ?_, ⟨?_, ?_, ?_, ?_, ?_, ?_⟩, ?_, ?_⟩
    · exact fun a => Interval.honest_neg
    · exact fun a => Interval.honest_abs
    · exact fun a => Interval.honest_exp
    · exact fun a => Interval.honest_ln
    · exact fun a => Interval.honest_sqrt
    · exact fun n a wellFormed => Interval.honest_powInt wellFormed n
    · exact fun a b => Interval.honest_add
    · exact fun a b => Interval.honest_sub
    · exact fun a b => Interval.honest_mul
    · exact fun a b => Interval.honest_div
    · exact fun a b => Interval.honest_pow
    · exact fun a b => Interval.honest_intPow
    · exact fun a b => Interval.honest_less
    · exact fun a b => Interval.honest_greater

/-- Where `x` is defined nowhere, `x ^ 2 < 9` is the undefined range of truth values, whatever ends
are left in `x`. The logarithm of a range around zero has no flag that the range has not. -/
theorem squareBelow_of_undefined :
    (∃ unit, (standard {}).compile { mode := Mode.interval }
        ((standard {}).resolve .empty squareBelow).1 = .ok unit ∧
      ∀ lo hi frame, (unit.evaluateIn []
        (Directory.empty.insert "x" (.interval ⟨lo, hi, 0⟩)) frame).1 =
          .ok (.boolInterval .undefined)) ∧
    Within (Interval.ln (⟨Double.ofInt (-1), Double.ofInt 1, 7⟩ : Interval Double)).info 7 := by
  have hresolved : ((standard {}).resolve .empty squareBelow).2.hasErrors = false := by
    decide +kernel
  have hcompiled : ((standard {}).compile { mode := Mode.interval }
      ((standard {}).resolve .empty squareBelow).1).isOk = true := by decide +kernel
  have hused : ((standard {}).resolve .empty squareBelow).1.usedVariables.map
      (fun x => (x.1, x.2.map (·.name))) = [("x", some "real")] := by decide +kernel
  have htype : ((standard {}).resolve .empty squareBelow).1.type?.map (·.name) = some "bool" := by
    decide +kernel
  have hoperator : ¬ ((standard {}).resolve .empty squareBelow).1.IsVariable := by
    rw [Expr.isVariable_resolve]
    rintro ⟨⟩
  obtain ⟨hruns, hoperations⟩ := definedness_not_made_up
  constructor
  · obtain ⟨unit, hunit⟩ := Except.exists_of_isOk hcompiled
    refine ⟨unit, hunit, fun lo hi frame => ?_⟩
    let a : Assignment := ⟨[], [], Directory.empty.insert "x" (.interval ⟨lo, hi, 0⟩)⟩
    have hx : a.value? "x" = some (.interval ⟨lo, hi, 0⟩) := rfl
    have hgiven : a.GivesRanges
        ((standard {}).resolve .empty squareBelow).1.usedVariables := by
      intro name t hmem
      have hnames := List.mem_map_of_mem (f := fun x => (x.1, x.2.map (·.name))) hmem
      rw [hused] at hnames
      obtain ⟨rfl, hreal⟩ : name = "x" ∧ t.name = "real" := by simpa using hnames
      refine ⟨_, hx, ?_, wellFormed_zero⟩
      rw [hreal]
      exact belongs_of_kind kinds_ranged_real
    have houtcome := @hruns {} rfl .empty squareBelow hresolved { mode := Mode.interval } rfl unit
      hunit [] rfl _ hgiven frame
    have hzero : 0 ∈ a.flags ((standard {}).resolve .empty squareBelow).1.usedVariables := by
      have hmem : ("x", some "real") ∈ [("x", some "real")] := List.mem_singleton_self _
      rw [← hused] at hmem
      obtain ⟨x, hmem, hx'⟩ := List.mem_map.1 hmem
      obtain ⟨hname, -⟩ := Prod.mk.inj hx'
      exact Assignment.mem_flags.2 ⟨x, hmem, _, hname ▸ hx, rfl⟩
    generalize (unit.evaluateIn [] (Directory.empty.insert "x" (.interval ⟨lo, hi, 0⟩)) frame).1 =
      result at houtcome
    cases houtcome with
    | refused checked => cases checked
    | @value t v typed belongs honest =>
      have hbool : t.name = "bool" := by
        rw [Expr.type?, typed] at htype
        exact Option.some.inj htype
      rcases (honest.undefined hzero).resolve_left hoperator with rfl | rfl
      · rw [hbool] at belongs
        cases (belongs_iff kinds_ranged_bool).1 belongs
      · rfl
  · obtain ⟨hunary, -⟩ := @hoperations Double _
    have hln := hunary Interval.ln (by simp) ⟨Double.ofInt (-1), Double.ofInt 1, 7⟩ (by decide)
    exact hln.within 7 List.mem_cons_self

end Environment

end Formula
