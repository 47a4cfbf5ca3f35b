import Formula.Proofs.Interval.Integers
import Formula.Proofs.Library.Integers
import Formula.Proofs.Library.Soundness
/-!
The types of the mode `interval` in the standard library. In a run over values of their types every
slot holds a range of the kind of its type, and between integers where integers are meant, as far as
its ends are finite. The type of ranges of integers accepts these but for the unbounded ones, which
the operators on integers give where the doubles end, and for powers of which they know nothing.
-/

namespace Formula

/-- A value is a range that is defined and not between two finite numbers. -/
def Value.Unbounded (v : Value) : Prop :=
  v.toInterval.Unbounded

instance (v : Value) : Decidable v.Unbounded :=
  inferInstanceAs (Decidable v.toInterval.Unbounded)

namespace Library

/-! ### Types -/

/-- A value is of the kind of the types of a name and, where integers are meant, has integers for
ends as far as these are finite. -/
structure Admits (type : String) (v : Value) : Prop where
  belongs : Belongs type v
  ends : type = "interval_int" → v.toInterval.WholeEnds

/-- A type admits a value, and accepts it unless it is an unbounded one where ranges of integers are
asked for. -/
structure AcceptsBounded (c : ConcreteType) (v : Value) : Prop where
  admits : Admits c.name v
  accepted : c.accepts v = true ↔ ¬(c.name = "interval_int" ∧ v.Unbounded)

theorem kinds_integerRange : kinds.lookup "interval_int" = some .interval := by decide

theorem isIntegerInterval_value_iff {v : Value} :
    isIntegerInterval v = true ↔ Admits "interval_int" v ∧ ¬v.Unbounded := by
  constructor
  · intro h
    cases v with
    | interval a =>
      obtain ⟨hends, hbounded⟩ := Interval.isIntegerInterval_iff.1 h
      exact ⟨⟨belongs_of_kind kinds_integerRange, fun _ => hends⟩, hbounded⟩
    | _ => cases h
  · rintro ⟨⟨hbelongs, hends⟩, hbounded⟩
    have hkind := (belongs_iff kinds_integerRange).1 hbelongs
    cases v with
    | interval a => exact Interval.isIntegerInterval_iff.2 ⟨hends rfl, hbounded⟩
    | _ => cases hkind

theorem integerIntervalComplaint_eq_none {v : Value} :
    integerIntervalComplaint v = none ↔ isIntegerInterval v = true := by
  cases v with
  | interval a =>
    simp only [integerIntervalComplaint, isIntegerInterval, Double.ne_eq_not_eq]
    cases a.isDefined <;> cases a.lo.fract.eq 0 <;> cases a.hi.fract.eq 0 <;> simp
  | _ => simp [integerIntervalComplaint, isIntegerInterval]

theorem accepts_of_kind {p : ConcreteType.Parts} {stamp : Nat} {c : ConcreteType} {k : Kind}
    (h : p.build stamp = .ok c) (hk : kinds.lookup p.name = some k)
    (given : p.accepts? = some fun v => v.kind == k) (v : Value) :
    c.accepts v = true ↔ Belongs c.name v := by
  obtain ⟨hname, haccepts, -⟩ := parts_of_build h
  rw [hname, belongs_iff hk, ← Option.some.inj (given.symm.trans haccepts), beq_iff_eq]

namespace Built

variable {c : ConcreteType}

/-- Of the types of the library only that of ranges of integers asks for more than a kind, and has
words of its own for what it refuses. -/
theorem cases (hc : Built c) :
    (c.name = "interval_int" ∧ c.accepts = isIntegerInterval ∧
      c.explain? = some integerIntervalComplaint) ∨
    (c.name ≠ "interval_int" ∧ (∀ v, c.accepts v = true ↔ Belongs c.name v) ∧
      c.explain? = none) := by
  obtain ⟨p, hp, stamp, h⟩ := hc
  obtain ⟨hname, haccepts, hexplain, -⟩ := parts_of_build h
  simp only [concreteTypes, List.mem_cons, List.not_mem_nil, or_false] at hp
  rcases hp with rfl | rfl | rfl | rfl | rfl | rfl | rfl
  · exact .inr ⟨hname ▸ by decide, accepts_of_kind h kinds_bool rfl, hexplain⟩
  · exact .inr ⟨hname ▸ by decide, accepts_of_kind h kinds_int rfl, hexplain⟩
  · exact .inr ⟨hname ▸ by decide, accepts_of_kind h kinds_real rfl, hexplain⟩
  · exact .inr ⟨hname ▸ by decide, accepts_of_kind h kinds_complex rfl, hexplain⟩
  · exact .inr ⟨hname ▸ by decide, accepts_of_kind h kinds_ranged_bool rfl, hexplain⟩
  · exact .inl ⟨hname, (Option.some.inj haccepts).symm, hexplain⟩
  · exact .inr ⟨hname ▸ by decide, accepts_of_kind h kinds_ranged_real rfl, hexplain⟩

theorem accepts_iff (hc : Built c) (v : Value) :
    c.accepts v = true ↔ Admits c.name v ∧ ¬(c.name = "interval_int" ∧ v.Unbounded) := by
  rcases hc.cases with ⟨hname, haccepts, -⟩ | ⟨hname, haccepts, -⟩
  · rw [haccepts, hname, isIntegerInterval_value_iff, and_iff_right rfl]
  · rw [haccepts]
    constructor
    · exact fun h => ⟨⟨h, fun heq => absurd heq hname⟩, fun h => hname h.1⟩
    · exact fun h => h.1.belongs

theorem acceptsBounded (hc : Built c) {v : Value} (hv : Admits c.name v) : AcceptsBounded c v :=
  ⟨hv, (hc.accepts_iff v).trans (and_iff_right hv)⟩

theorem complaint_eq_none (hc : Built c) {v : Value} :
    c.complaint v = none ↔ c.accepts v = true := by
  unfold ConcreteType.complaint
  rcases hc.cases with ⟨-, haccepts, hexplain⟩ | ⟨-, -, hexplain⟩
  · rw [hexplain, haccepts]
    exact integerIntervalComplaint_eq_none
  · rw [hexplain]
    by_cases haccepts : c.accepts v = true <;> simp [haccepts]

end Built

end Library

/-! ### Operators -/

namespace IntegerOperator

open Library

variable {op : IntegerOperator} {o : Overload} {e : Evaluator} {as : List (Interval Double)}

/-- Nothing is known of a power: there is more than one exponent, or it is too great. -/
def Unknown (op : IntegerOperator) (as : List (Interval Double)) : Prop :=
  op = pow ∧ ∃ a b, as = [a, b] ∧ (Interval.common a b).isSome = true ∧
    ∀ n, Interval.single? b = some n → Interval.greatestExponent < n

/-- An operation cannot lead beyond the doubles: it is a change of sign or a power with a negative
exponent. -/
def Contained (op : IntegerOperator) (as : List (Interval Double)) : Prop :=
  op = neg ∨ op = pow ∧ ∃ a b n, as = [a, b] ∧ Interval.single? b = some n ∧ n < 0

/-- An evaluator makes of ranges what an operator does: a range with whole ends, which its type
accepts unless it is unbounded. -/
structure Computes (op : IntegerOperator) (f : Evaluator) (as : List (Interval Double)) : Prop where
  call : f.call (as.map .interval) = .interval (op.ranged as)
  ends : (op.ranged as).WholeEnds
  accepted : f.result.accepts (.interval (op.ranged as)) = true ↔ ¬(op.ranged as).Unbounded
  contained : op.Contained as → f.result.accepts (.interval (op.ranged as)) = true
  unknown : op.Unknown as → f.result.accepts (.interval (op.ranged as)) = false

theorem unbounded_of_unknown (h : op.Unknown as) : (op.ranged as).Unbounded := by
  obtain ⟨rfl, a, b, rfl, hshared, hgreat⟩ := h
  obtain ⟨info, shared⟩ := Option.isSome_iff_exists.1 hshared
  exact Interval.unbounded_intPow shared hgreat

theorem not_unbounded_of_contained (h : op.Contained as) (hargs : ∀ a ∈ as, ¬a.Unbounded) :
    ¬(op.ranged as).Unbounded := by
  rcases h with rfl | ⟨rfl, a, b, n, rfl, single, hn⟩
  · match as with
    | [a] => exact Interval.not_unbounded_neg (hargs a List.mem_cons_self)
    | [] | _ :: _ :: _ => exact Interval.not_unbounded_undefined
  · exact Interval.not_unbounded_intPow single hn

/-- The operators keep whole ends. -/
theorem wholeEnds_ranged (hargs : ∀ a ∈ as, a.WholeEnds) (length : as.length = op.arity) :
    (op.ranged as).WholeEnds := by
  cases op with
  | neg =>
    obtain ⟨a, rfl⟩ := List.length_eq_one_iff.1 length
    exact (List.forall_mem_singleton.1 hargs).neg
  | add =>
    obtain ⟨a, b, rfl⟩ := List.length_eq_two.1 length
    exact (hargs a List.mem_cons_self).add (hargs b (by simp))
  | sub =>
    obtain ⟨a, b, rfl⟩ := List.length_eq_two.1 length
    exact (hargs a List.mem_cons_self).sub (hargs b (by simp))
  | mul =>
    obtain ⟨a, b, rfl⟩ := List.length_eq_two.1 length
    exact (hargs a List.mem_cons_self).mul (hargs b (by simp))
  | pow =>
    obtain ⟨a, b, rfl⟩ := List.length_eq_two.1 length
    exact (hargs a List.mem_cons_self).intPow (hargs b (by simp))

/-- An operator on integers takes ranges of integers. -/
theorem names_ranged (made : op.spec.Makes o) (found : o.evaluator? Mode.interval = some e) :
    e.arguments.map (·.name) = List.replicate op.arity "interval_int" := by
  cases op with
  | neg => exact ((makes_pair (s := spec neg) rfl made).2 found).names.1
  | add | sub | mul | pow => exact ((makes_pair rfl made).2 found).names.1

theorem exists_ranges {args : List Value} (h : ∀ v ∈ args, Belongs "interval_int" v) :
    ∃ as : List (Interval Double), args = as.map .interval := by
  induction args with
  | nil => exact ⟨[], rfl⟩
  | cons v args ih =>
    obtain ⟨hv, hargs⟩ := List.forall_mem_cons.1 h
    obtain ⟨as, rfl⟩ := ih hargs
    have hkind := (belongs_iff kinds_integerRange).1 hv
    cases v with
    | interval a => exact ⟨a :: as, rfl⟩
    | _ => cases hkind

/-- What an operator on integers is handed, if it is right for the types, are as many ranges as it
has operands. -/
theorem exists_operands (made : op.spec.Makes o) (found : o.evaluator? Mode.interval = some e)
    {P : String → Value → Prop} (hP : ∀ v, P "interval_int" v → Belongs "interval_int" v)
    {args : List Value} (hargs : List.Forall₂ (fun v c => P c.name v) args e.arguments) :
    ∃ as : List (Interval Double), args = as.map .interval ∧ as.length = op.arity ∧
      ∀ a ∈ as, P "interval_int" (.interval a) := by
  have hnamed : List.Forall₂ (fun v n => P n v) args (List.replicate op.arity "interval_int") := by
    rw [← names_ranged made found, List.forall₂_map_right_iff]
    exact hargs
  have hall : ∀ v ∈ args, P "interval_int" v := by
    intro v hv
    obtain ⟨i, hi, rfl⟩ := List.mem_iff_getElem.1 hv
    have hget := hnamed.get hi (hnamed.length_eq ▸ hi)
    simpa using hget
  obtain ⟨as, rfl⟩ := exists_ranges fun v hv => hP v (hall v hv)
  have hlength : as.length = op.arity := by simpa using hnamed.length_eq
  exact ⟨as, rfl, hlength, List.forall_mem_map.1 hall⟩

end IntegerOperator

/-! ### Evaluators -/

namespace Library

/-- An evaluator of the library overwrites its place, and leads from values that its argument types
admit to one that its result type admits. -/
structure Preserving (e : Evaluator) : Prop where
  overwrites : e.Overwrites
  built : Built e.result
  admits : ∀ args, List.Forall₂ (fun v c => Admits c.name v) args e.arguments →
    Admits e.result.name (e.call args)

theorem preserving_of_lawful {e : Evaluator} (h : e.Lawful) (built : Built e.result)
    (ends : e.result.name = "interval_int" → ∀ args,
      List.Forall₂ (fun v c => Admits c.name v) args e.arguments →
      (e.call args).toInterval.WholeEnds) : Preserving e := by
  refine ⟨h.overwrites, built, fun args hargs => ⟨?_, fun hname => ends hname args hargs⟩⟩
  exact h.sound args (hargs.imp fun _ _ hv => hv.belongs)

/-- Only integers are lifted to ranges of integers. -/
theorem whole_of_lifted : ∀ s ∈ concreteCasts, s.result = "interval_int" →
    ∃ f, s.function = some f ∧ ∀ v place, (f.result [v] place).toInterval.WholeEnds := by
  simp only [concreteCasts, List.forall_mem_cons, List.not_mem_nil, false_imp_iff, implies_true,
    and_true]
  refine ⟨?_, ?_, ?_, ?_, ?_, ?_, ?_⟩
  · exact fun h => absurd h (by decide)
  · exact fun h => absurd h (by decide)
  · exact fun h => absurd h (by decide)
  · exact fun h => absurd h (by decide)
  · exact fun h => absurd h (by decide)
  · refine fun _ => ⟨_, rfl, fun v place => ?_⟩
    simp only [Function.inPlace₁, Function.result, Value.write_eq]
    exact Interval.wholeEnds_point (Double.whole_ofInt _)
  · exact fun h => absurd h (by decide)

/-- Only operators on integers have ranges of integers for results. -/
theorem integers_of_ranged : ∀ s ∈ overloads, ∀ p ∈ s.evaluators, p.1 = Mode.interval →
    p.2.result = "interval_int" → ∀ n ∈ s.arguments, n = "int" := by
  decide

variable {config : Config} {e : Evaluator}

theorem preserving_conversion {source target : String} {c : ConcreteCast}
    (h : CastRegistry.find? (Environment.standard config).casts.concrete source target = some c) :
    Preserving c.evaluator := by
  obtain ⟨-, -, s, hs, hmakes⟩ := (Environment.described_standard config).conversions _ _ c h
  obtain ⟨-, hresult, hbuilt, -⟩ := hmakes.names
  have hlawful := ((Environment.furnished_standard config).conversions _ _ c h).1
  refine preserving_of_lawful hlawful hbuilt fun hname args hargs => ?_
  obtain ⟨f, given, hwhole⟩ := whole_of_lifted s hs (hresult.symm.trans hname)
  rw [c.arguments_eq] at hargs
  obtain _ | ⟨-, _ | _⟩ := hargs
  rw [hmakes.call_function given]
  exact hwhole _ _

/-- What gives ranges of integers is one of the operators on integers. -/
theorem operator_of_ranged {name : String} {o : Overload}
    (candidate : o ∈ (Environment.standard config).operators.candidates name)
    (found : o.evaluator? Mode.interval = some e) (hname : e.result.name = "interval_int") :
    ∃ op : IntegerOperator, op.spec.Makes o := by
  obtain ⟨s, hs, made⟩ := Environment.made_standard config candidate
  obtain ⟨p, hp, hmode, hmakes⟩ := made.evaluator found
  have hresult : p.2.result = "interval_int" := hmakes.names.2.1.symm.trans hname
  obtain ⟨op, rfl⟩ := IntegerOperator.spec_of_ints hs (integers_of_ranged s hs p hp hmode hresult)
  exact ⟨op, made⟩

theorem preserving_operator {name : String} {o : Overload}
    (candidate : o ∈ (Environment.standard config).operators.candidates name)
    (found : o.evaluator? Mode.interval = some e) : Preserving e := by
  obtain ⟨s, -, p, -, -, hmakes⟩ :=
    ((Environment.described_standard config).overloads name o candidate).2 _ e found
  obtain ⟨hlawful, -⟩ :=
    ((Environment.furnished_standard config).overloads name o candidate).2 _ e found
  refine preserving_of_lawful hlawful hmakes.names.2.2.1 fun hname args hargs => ?_
  obtain ⟨op, made⟩ := operator_of_ranged candidate found hname
  obtain ⟨as, rfl, hlength, has⟩ :=
    IntegerOperator.exists_operands made found (fun _ h => h.belongs) hargs
  rw [IntegerOperator.call_ranged made found hlength]
  exact IntegerOperator.wholeEnds_ranged (fun a ha => (has a ha).ends rfl) hlength

/-- An environment of the library whose conversions, and evaluators of the mode `interval`, keep
what the types admit. -/
structure KeepsRanges (env : Environment) : Prop where
  described : Described env
  coherent : env.Coherent
  conversions : ∀ source target c, CastRegistry.find? env.casts.concrete source target = some c →
    Preserving c.evaluator
  operators : ∀ name, ∀ o ∈ env.operators.candidates name, ∀ f,
    o.evaluator? Mode.interval = some f → Preserving f

theorem keepsRanges_standard (config : Config) : KeepsRanges (Environment.standard config) where
  described := Environment.described_standard config
  coherent := (Environment.reachable_standard config).coherent
  conversions _ _ _ h := preserving_conversion h
  operators _ _ candidate _ found := preserving_operator candidate found

/-! ### Runs -/

/-- What programs over the library are typed against in the mode `interval`: evaluators that keep
what the types admit. -/
def rangedTyping (env : Environment) (vars : VariableTypes) (options : CompileOptions)
    (e : Expr) : Compile.Typing where
  env
  vars
  options
  belongs := Admits
  uses := e.Uses
  calls := Preserving

section Ranged

variable {env : Environment} {vars : VariableTypes} {options : CompileOptions} {e : Expr}
  {t : MathType} (henv : KeepsRanges env)

include henv

theorem closed_rangedTyping (default : env.config.defaultMode = Mode.normal) :
    (rangedTyping env vars options e).Closed := by
  refine ⟨henv.coherent, fun source target c h _ => henv.conversions source target c h,
    fun name t c v known represented hv => ?_, fun source target c v h hv => ?_⟩
  · -- constants are written as plain values, which are no ranges
    have hplain : Plain c :=
      henv.described.furnished.mathematical name t known c (default ▸ represented)
    exact ((hplain.1.accepts_iff v).1 (hplain.complaint_eq_none.1 hv)).1
  · obtain ⟨rfl, rfl⟩ := henv.coherent.entered source target c h
    refine (henv.conversions _ _ c h).admits [v] ?_
    rw [c.arguments_eq]
    exact .cons hv .nil

theorem covers_rangedTyping (mode : options.mode = Mode.interval) (he : e.HasType env vars t) :
    (rangedTyping env vars options e).Covers e := by
  refine ⟨fun _ h => h, fun f hf => ?_⟩
  obtain ⟨slot, name, cs, r, hn, hfound⟩ := hf
  obtain ⟨u, hu⟩ := he.of_mem_nodes hn
  cases hu with
  | op length operands choice =>
    have candidate := (Expr.choice_spec length choice).1
    exact henv.operators name _ candidate f (mode ▸ hfound)

theorem built_of_hasType (he : e.HasType env vars t) {mode : Mode} {c : ConcreteType}
    (represented : t.representation? mode = some c) : Built c := by
  have hlisted : Listed t := by
    clear represented
    induction he with
    | group child ih => exact ih
    | var known => exact henv.described.mathematical _ _ known
    | const known belongs => exact henv.described.mathematical _ _ known
    | op length operands choice ih =>
      exact (henv.described.overloads _ _ (Expr.choice_spec length choice).1).1
  obtain ⟨p, -, hrepresentations⟩ := hlisted
  exact (hrepresentations mode c represented).1

omit henv in
/-- A value that a type accepts is received as it is, whatever it might be converted from. -/
theorem received_of_accepted {c : ConcreteType} (hc : Built c) {v : Value}
    (accepted : c.accepts v = true) (isChecked : Bool) (conversion? : Option Lift)
    (name : String) : Direct.received isChecked conversion? c name v = .ok v := by
  have hfilter : (conversion?.filter fun l => !c.accepts v && l.source.accepts v) = none := by
    simp [accepted]
  have hcomplaint := hc.complaint_eq_none.2 accepted
  cases isChecked <;> simp [Direct.received, hfilter, hcomplaint]

theorem delivers_rangedTyping (mode : options.mode = Mode.interval) (he : e.HasType env vars t)
    {arguments : List Value} (length : arguments.length = options.exported.length) {scope : Scope}
    (given : GivenIn Mode.interval { exported := options.exported, arguments, scope } e)
    {constants : Array Value} :
    (rangedTyping env vars options e).Delivers { arguments, scope, constants } := by
  refine ⟨fun f hf => hf.admits, fun name t target conversion? used known represented h => ?_⟩
  obtain ⟨slot, hn⟩ := used
  obtain ⟨u, hu⟩ := he.of_mem_nodes hn
  -- the type in the slot of the variable is the one that is known under its name
  cases hu with
  | var known' =>
    obtain rfl : t = u := Option.some.inj (known.symm.trans known')
    obtain ⟨v, hv, haccepts⟩ := given t name hn
    have hc : Built target :=
      henv.described.furnished.representations _ t known options.mode target represented
    have haccepted := haccepts target (mode ▸ represented)
    refine ⟨v, ?_, ((hc.accepts_iff v).1 haccepted).1⟩
    rw [Compile.Typing.value_readOf length h, Direct.variableValue]
    have hassigned : ((rangedTyping env vars options e).assignment
        { arguments, scope, constants }).value? name = some v := hv
    have hconversion : Compile.variableConversion
        (rangedTyping env vars options e).context t target = .ok conversion? := h
    simp [hconversion, hassigned, received_of_accepted hc haccepted]

theorem built_of_bindings {p : Program} (hp : (rangedTyping env vars options e).OfProgram p)
    {i : Nat} {x : Binding} (hx : p.bindings[i]? = some x) : Built x.type := by
  cases hp.bindings i x hx with
  | read used known represented converted =>
    exact henv.described.furnished.representations _ _ known _ _ represented
  | apply called applies operands => exact called.built

end Ranged

end Library

namespace Environment

open Library

/-- A run of a compiled expression over ranges: it gives a value and leaves one in every slot, and
each is accepted by its type unless it is unbounded among ranges of integers. -/
structure RangedRun (options : CompileOptions) (e : Expr) (unit : CompiledUnit)
    (arguments : List Value) (scope : Scope) (frame : Frame) : Prop where
  value : ∃ t c v, e.slot = .resolved t ∧ t.representation? options.mode = some c ∧
    (unit.evaluateIn arguments scope frame).1 = .ok v ∧ AcceptsBounded c v
  size : (unit.evaluateIn arguments scope frame).2.slots.size = unit.program.bindings.size
  slots : ∀ (i : Nat) x, unit.program.bindings[i]? = some x → ∃ v,
    (unit.evaluateIn arguments scope frame).2.slots[i]? = some v ∧ AcceptsBounded x.type v

theorem rangedRun_of_keepsRanges {env : Environment} {vars : VariableTypes}
    {options : CompileOptions} {e : Expr} {t : MathType} {unit : CompiledUnit}
    {arguments : List Value} {scope : Scope} (henv : KeepsRanges env)
    (default : env.config.defaultMode = Mode.normal) (mode : options.mode = Mode.interval)
    (he : e.HasType env vars t) (compiled : env.compile options e = .ok unit)
    (length : arguments.length = options.exported.length)
    (given : GivenIn Mode.interval { exported := options.exported, arguments, scope } e)
    (frame : Frame) : RangedRun options e unit arguments scope frame := by
  have hT : (rangedTyping env vars options e).Closed := closed_rangedTyping henv default
  have hcovers := covers_rangedTyping henv mode he
  have hp := (Compile.Typing.program_typed hT he hcovers (compile_eq_ok compiled)).1
  obtain ⟨⟨c, v, hc, hvalue, hv⟩, hsize, hslots⟩ := Compile.Typing.evaluateIn_delivers hT he
    hcovers (fun f hf => hf.overwrites) compiled length
    (delivers_rangedTyping henv mode he length given) frame
  constructor
  case value =>
    exact ⟨t, c, v, he.slot_eq, hc, hvalue, (built_of_hasType henv he hc).acceptsBounded hv⟩
  case size => exact hsize
  case slots =>
    intro i x hx
    obtain ⟨w, hw, hadmits⟩ := hslots i x hx
    exact ⟨w, hw, (built_of_bindings henv hp hx).acceptsBounded hadmits⟩

/-- What gives ranges of integers is one of the five operators on them. -/
theorem computes_of_candidate {config : Config} {name : String} {o : Overload} {f : Evaluator}
    (candidate : o ∈ (standard config).operators.candidates name)
    (found : o.evaluator? Mode.interval = some f) (hname : f.result.name = "interval_int") :
    ∃ op : IntegerOperator, o.name = op.spec.name ∧
      ∀ args, List.Forall₂ (fun v c => c.accepts v = true) args f.arguments →
        ∃ as, args = as.map .interval ∧ op.Computes f as := by
  obtain ⟨op, made⟩ := operator_of_ranged candidate found hname
  obtain ⟨s, -, p, -, -, hmakes⟩ :=
    ((described_standard config).overloads name o candidate).2 _ f found
  obtain ⟨-, -, hbuilt, hbuilts⟩ := hmakes.names
  refine ⟨op, made.names.1, fun args hargs => ?_⟩
  let Taken (n : String) (v : Value) : Prop := Admits n v ∧ ¬(n = "interval_int" ∧ v.Unbounded)
  have htaken : List.Forall₂ (fun v c => Taken c.name v) args f.arguments := by
    refine List.forall₂_iff_get.2 ⟨hargs.length_eq, fun i hi hj => ?_⟩
    exact ((hbuilts _ (List.get_mem _ _)).accepts_iff _).1 (hargs.get hi hj)
  obtain ⟨as, rfl, hlength, has⟩ :=
    IntegerOperator.exists_operands (P := Taken) made found (fun v h => h.1.belongs) htaken
  have hcall := IntegerOperator.call_ranged made found hlength
  have hadmits : Admits f.result.name (.interval (op.ranged as)) := by
    rw [← hcall]
    exact (preserving_operator candidate found).admits _ (htaken.imp fun _ _ h => h.1)
  have haccepted : f.result.accepts (.interval (op.ranged as)) = true ↔
      ¬(op.ranged as).Unbounded :=
    (hbuilt.acceptsBounded hadmits).accepted.trans (not_congr (and_iff_right hname))
  refine ⟨as, rfl, hcall, hadmits.ends hname, haccepted, fun contained => ?_, fun unknown => ?_⟩
  · have hbounded : ∀ a ∈ as, ¬a.Unbounded := fun a ha h => (has a ha).2 ⟨rfl, h⟩
    exact haccepted.2 (IntegerOperator.not_unbounded_of_contained contained hbounded)
  · rw [← Bool.not_eq_true, haccepted, not_not]
    exact IntegerOperator.unbounded_of_unknown unknown

/-- The types of the mode `interval` over the standard library. Every run over values of their types
gives a value, and leaves one in every slot, that its type accepts unless it is unbounded among
ranges of integers. Of the operators on integers a change of sign and a power with a negative
exponent give no such range, and a power of which nothing is known always does. -/
theorem integer_ranges_standard {config : Config} (default : config.defaultMode = Mode.normal) :
    (∀ (vars : VariableTypes) {e : Expr},
      ((standard config).resolve vars e).2.hasErrors = false →
      ∀ {options : CompileOptions}, options.mode = Mode.interval → ∀ {unit : CompiledUnit},
      (standard config).compile options ((standard config).resolve vars e).1 = .ok unit →
      ∀ {arguments : List Value}, arguments.length = options.exported.length → ∀ {scope : Scope},
      GivenIn Mode.interval { exported := options.exported, arguments, scope }
        ((standard config).resolve vars e).1 → ∀ frame,
      RangedRun options ((standard config).resolve vars e).1 unit arguments scope frame) ∧
    ∀ {name : String} {o : Overload} {f : Evaluator},
      o ∈ (standard config).operators.candidates name →
      o.evaluator? Mode.interval = some f → f.result.name = "interval_int" →
      ∃ op : IntegerOperator, o.name = op.spec.name ∧
        ∀ args, List.Forall₂ (fun v c => c.accepts v = true) args f.arguments →
          ∃ as, args = as.map .interval ∧ op.Computes f as := by
  refine ⟨fun vars e resolved options mode unit compiled arguments length scope given frame => ?_,
    computes_of_candidate⟩
  have hmode : (standard config).config.defaultMode = Mode.normal := by
    rw [config_standard, default]
  obtain ⟨t, ht⟩ := Expr.hasType_resolve resolved
  exact rangedRun_of_keepsRanges (keepsRanges_standard config) hmode mode ht compiled length given
    frame

/-- The expression `n ^ m`. -/
def powerOfVariables : Expr :=
  .op .pending "^" [.var .pending "n", .var .pending "m"] none

/-- Both variables stand for integers. -/
def integerVariables : VariableTypes :=
  (Directory.empty.insert "n" "int").insert "m" "int"

/-- The ranges from 2 to 3 for `n` and from some integer to another for `m`. -/
def rangesFor (lo hi : Int) : Scope :=
  (Directory.empty.insert "n" (.interval ⟨.ofInt 2, .ofInt 3, Info.all⟩)).insert "m"
    (.interval ⟨.ofInt lo, .ofInt hi, Info.all⟩)

/-- With the exponents from 1 to 2 the power is everything, and its own type refuses it. -/
theorem power_refused :
    ((standard {}).resolve integerVariables powerOfVariables).2.hasErrors = false ∧
    GivenIn Mode.interval { exported := [], arguments := [], scope := rangesFor 1 2 }
      ((standard {}).resolve integerVariables powerOfVariables).1 ∧
    ∃ unit t c, (standard {}).compile { mode := Mode.interval }
        ((standard {}).resolve integerVariables powerOfVariables).1 = .ok unit ∧
      ((standard {}).resolve integerVariables powerOfVariables).1.slot = .resolved t ∧
      t.representation? Mode.interval = some c ∧ c.name = "interval_int" ∧
      unit.evaluate (rangesFor 1 2) = .ok (.interval .everything) ∧
      c.accepts (.interval .everything) = false := by
  have hchecked : ((standard {}).resolve integerVariables powerOfVariables).2.hasErrors = false ∧
      GivenIn Mode.interval { exported := [], arguments := [], scope := rangesFor 1 2 }
        ((standard {}).resolve integerVariables powerOfVariables).1 ∧
      ((standard {}).compile { mode := Mode.interval }
        ((standard {}).resolve integerVariables powerOfVariables).1).toOption.map
          (fun unit => unit.evaluate (rangesFor 1 2)) = some (.ok (.interval .everything)) ∧
      (((standard {}).resolve integerVariables powerOfVariables).1.type?.bind
        (·.representation? Mode.interval)).map (fun c =>
          (c.name, c.accepts (.interval .everything))) = some ("interval_int", false) := by
    decide +kernel
  obtain ⟨hresolved, hgiven, hrun, htype⟩ := hchecked
  obtain ⟨unit, hunit, hvalue⟩ := Except.exists_of_toOption_map hrun
  obtain ⟨c, hrepresented, hc⟩ := Option.map_eq_some_iff.1 htype
  obtain ⟨t, ht, hrepresented⟩ := Option.bind_eq_some_iff.1 hrepresented
  obtain ⟨hname, hrefused⟩ := Prod.mk.inj hc
  exact ⟨hresolved, hgiven, unit, t, c, hunit, TypeSlot.type?_eq_some.1 ht, hrepresented, hname,
    hvalue, hrefused⟩

/-- With the exponent 2 all values of the run are accepted by their types or unbounded, and the type
of the sum of ranges of integers accepts the one from 3 to 5. -/
theorem power_and_sum_accepted :
    (∃ unit, (standard {}).compile { mode := Mode.interval }
        ((standard {}).resolve integerVariables powerOfVariables).1 = .ok unit ∧
      ∀ frame, RangedRun { mode := Mode.interval }
        ((standard {}).resolve integerVariables powerOfVariables).1 unit [] (rangesFor 2 2) frame) ∧
    ∃ o ∈ (standard {}).operators.candidates "+", ∃ f, o.evaluator? Mode.interval = some f ∧
      f.result.accepts (f.call [.interval ⟨.ofInt 2, .ofInt 3, Info.all⟩,
        .interval ⟨.ofInt 1, .ofInt 2, Info.all⟩]) = true := by
  obtain ⟨hruns, hoperators⟩ := @integer_ranges_standard {} rfl
  constructor
  · have hchecked : ((standard {}).resolve integerVariables powerOfVariables).2.hasErrors = false ∧
        ((standard {}).compile { mode := Mode.interval }
          ((standard {}).resolve integerVariables powerOfVariables).1).isOk = true ∧
        GivenIn Mode.interval { exported := [], arguments := [], scope := rangesFor 2 2 }
          ((standard {}).resolve integerVariables powerOfVariables).1 := by
      decide +kernel
    obtain ⟨hresolved, hcompiled, hgiven⟩ := hchecked
    obtain ⟨unit, hunit⟩ := Except.exists_of_isOk hcompiled
    exact ⟨unit, hunit, hruns integerVariables hresolved rfl hunit rfl hgiven⟩
  · have hchecked : (((standard {}).operators.candidates "+").head?.bind
        (·.evaluator? Mode.interval)).isSome = true ∧
        ∀ o ∈ ((standard {}).operators.candidates "+").head?, o.name = "+" ∧
          ∀ f ∈ o.evaluator? Mode.interval, f.result.name = "interval_int" ∧
            List.Forall₂ (fun v c => c.accepts v = true)
              [.interval ⟨.ofInt 2, .ofInt 3, Info.all⟩, .interval ⟨.ofInt 1, .ofInt 2, Info.all⟩]
              f.arguments := by
      decide +kernel
    obtain ⟨hsome, hfirst⟩ := hchecked
    obtain ⟨f, hf⟩ := Option.isSome_iff_exists.1 hsome
    obtain ⟨o, ho, found⟩ := Option.bind_eq_some_iff.1 hf
    obtain ⟨hplus, hevaluator⟩ := hfirst o ho
    obtain ⟨hname, hargs⟩ := hevaluator f found
    have candidate := List.mem_of_mem_head? ho
    obtain ⟨op, hop, hcomputes⟩ := hoperators candidate found hname
    obtain ⟨as, heq, computes⟩ := hcomputes _ hargs
    refine ⟨o, candidate, f, found, ?_⟩
    have has : as = [⟨.ofInt 2, .ofInt 3, Info.all⟩, ⟨.ofInt 1, .ofInt 2, Info.all⟩] := by
      rcases as with _ | ⟨a, _ | ⟨b, _ | ⟨c, as⟩⟩⟩
      all_goals cases heq
      rfl
    cases op with
    | add =>
      rw [heq, computes.call, computes.accepted, has]
      decide +kernel
    | _ => exact absurd (hplus.symm.trans hop) (by decide)

end Environment

end Formula
