import Formula.Proofs.Interval.Flags
import Formula.Proofs.Library.Literals
/-!
The mode `interval` of the standard library: its evaluators are honest about the flags of ranges,
and its conversions lift plain values to ranges and leave ranges as they are.
-/

namespace Formula

open Info

/-! ### Values -/

/-- The flags of a range. A plain value has none. -/
def Value.flags : Value → UInt8
  | interval a => a.info
  | boolInterval b => b.info
  | _ => 0

/-- A value is one of the two ranges that stand for what is defined nowhere. -/
def Value.Undefined (v : Value) : Prop :=
  v = .interval .undefined ∨ v = .boolInterval .undefined

theorem Value.toInterval_within (v : Value) : Within v.toInterval.info v.flags := by
  cases v with
  | interval a => exact .refl a.info
  | _ => exact zero_within _

theorem Value.wellFormed_toInterval {v : Value} (h : WellFormed v.flags) :
    WellFormed v.toInterval.info := by
  cases v with
  | interval a => exact h
  | _ => exact wellFormed_zero

/-! ### Functions -/

namespace Function

open Library

/-- A function of so many ranges gives values of a type that are honest about the flags of its
arguments. -/
def Honest (f : Function) (arity : Nat) (type : String) : Prop :=
  ∀ args place, args.length = arity → (∀ v ∈ args, WellFormed v.flags) →
    Belongs type (f.result args place) ∧
      Info.Honest (args.map Value.flags) (f.result args place).flags (f.result args place).Undefined

variable {type : String}

theorem honest_interval {f : Interval Double → Interval Double}
    (htype : kinds.lookup type = some .interval)
    (hf : ∀ a, WellFormed a.info → Info.Honest [a.info] (f a).info (f a = .undefined)) :
    (interval f).Honest 1 type := by
  intro args place hlen hargs
  match args, hlen with
  | [v], _ =>
    simp only [interval, inPlace₁, result, Value.write_eq]
    refine ⟨belongs_of_kind htype, ?_⟩
    have hv := hf v.toInterval (Value.wellFormed_toInterval (hargs v List.mem_cons_self))
    refine hv.mono ?_ fun h => .inl (congrArg Value.interval h)
    simpa using v.toInterval_within

theorem pair_within (v w : Value) : ∀ j ∈ [v, w].map Value.flags,
    ∃ i ∈ [v.toInterval.info, w.toInterval.info], Within i j := by
  simp only [List.map_cons, List.map_nil, List.forall_mem_cons, List.not_mem_nil, false_imp_iff,
    implies_true, and_true]
  exact ⟨⟨_, by simp, v.toInterval_within⟩, _, by simp, w.toInterval_within⟩

theorem honest_intervalPair {f : Interval Double → Interval Double → Interval Double}
    (htype : kinds.lookup type = some .interval)
    (hf : ∀ a b, Info.Honest [a.info, b.info] (f a b).info (f a b = .undefined)) :
    (intervalPair f).Honest 2 type := by
  intro args place hlen _
  match args, hlen with
  | [v, w], _ =>
    simp only [intervalPair, inPlace₂, result, Value.write_eq]
    refine ⟨belongs_of_kind htype, ?_⟩
    exact (hf _ _).mono (pair_within v w) fun h => .inl (congrArg Value.interval h)

theorem honest_intervalComparison {f : Interval Double → Interval Double → BoolInterval}
    (htype : kinds.lookup type = some .boolInterval)
    (hf : ∀ a b, Info.Honest [a.info, b.info] (f a b).info (f a b = .undefined)) :
    (intervalComparison f).Honest 2 type := by
  intro args place hlen _
  match args, hlen with
  | [v, w], _ =>
    simp only [intervalComparison, inPlace₂, result, Value.write_eq]
    refine ⟨belongs_of_kind htype, ?_⟩
    exact (hf _ _).mono (pair_within v w) fun h => .inr (congrArg Value.boolInterval h)

end Function

namespace Library

open Formula.Function

/-! ### Overloads -/

/-- The evaluators of an overload in the mode `interval` are described by honest functions. -/
def Honest (s : Overload.Spec) : Prop :=
  ∀ p ∈ s.evaluators, p.1 = Mode.interval →
    ∃ f, p.2.function = some f ∧ f.Honest p.2.arguments.length p.2.result

variable {s : Overload.Spec} {f : Function}

theorem honest_overload (name : String) (arguments : List String) (result : String) :
    Honest (overload name arguments result) :=
  fun _ h => nomatch h

/-- What is said of plain values makes no difference. -/
theorem Honest.evaluated_normal {e : Evaluator.Spec} (h : Honest s) :
    Honest (s.evaluated Mode.normal e) := by
  intro p hp hmode
  rcases List.mem_append.1 hp with hp | hp
  · exact h p hp hmode
  · have hne : Mode.normal ≠ Mode.interval := by decide
    rw [List.mem_singleton.1 hp] at hmode
    exact absurd hmode hne

theorem honest_withToken {name : String} {arguments : List String} {result token : String} :
    Honest (withToken (overload name arguments result) token) :=
  (honest_overload name arguments result).evaluated_normal

theorem honest_withPlain {name : String} {arguments : List String} {result : String} :
    Honest (withPlain (overload name arguments result) f) :=
  (honest_overload name arguments result).evaluated_normal

theorem Honest.withRanged (h : Honest s) (hf : f.Honest s.arguments.length (ranged s.result)) :
    Honest (withRanged s f) := by
  intro p hp hmode
  rcases List.mem_append.1 hp with hp | hp
  · exact h p hp hmode
  · have hlength : (s.arguments.map ranged).length = s.arguments.length := List.length_map _
    rw [List.mem_singleton.1 hp]
    rw [← hlength] at hf
    exact ⟨f, rfl, hf⟩

/-- The operations on pairs of intervals are honest. -/
theorem honest_field {a : Arithmetic} (ha : a ∈ field) (x y : Interval Double) :
    Info.Honest [x.info, y.info] (a.onIntervals x y).info (a.onIntervals x y = .undefined) := by
  simp only [field, ring, List.cons_append, List.nil_append, List.mem_cons, List.not_mem_nil,
    or_false] at ha
  rcases ha with rfl | rfl | rfl | rfl
  · exact Interval.honest_add
  · exact Interval.honest_sub
  · exact Interval.honest_mul
  · exact Interval.honest_div

theorem honest_onInts {a : Arithmetic} (ha : a ∈ ring) : Honest (onInts a) :=
  honest_withToken.withRanged
    (honest_intervalPair kinds_ranged_int (honest_field (List.mem_append_left _ ha)))

theorem honest_onReals {a : Arithmetic} (ha : a ∈ field) : Honest (onReals a) :=
  honest_withToken.withRanged (honest_intervalPair kinds_ranged_real (honest_field ha))

theorem honest_negations : ∀ s ∈ negations, Honest s := by
  simp only [negations, List.forall_mem_cons, List.not_mem_nil, false_imp_iff, implies_true,
    and_true]
  refine ⟨?_, ?_, ?_⟩
  · exact honest_withToken.withRanged
      (honest_interval kinds_ranged_int fun _ => Interval.honest_neg)
  · exact honest_withToken.withRanged
      (honest_interval kinds_ranged_real fun _ => Interval.honest_neg)
  · exact honest_withPlain

theorem honest_powers : ∀ s ∈ powers, Honest s := by
  simp only [powers, List.forall_mem_cons, List.not_mem_nil, false_imp_iff, implies_true, and_true]
  refine ⟨?_, ?_, ?_, ?_⟩
  · exact honest_withPlain.withRanged
      (honest_intervalPair kinds_ranged_int fun _ _ => Interval.honest_intPow)
  · exact honest_withPlain.withRanged
      (honest_intervalPair kinds_ranged_real fun _ _ => Interval.honest_pow)
  · exact honest_withPlain
  · exact honest_withPlain

theorem honest_arithmetic : ∀ s ∈ arithmeticOperators, Honest s := by
  simp only [arithmeticOperators, List.mem_append, or_imp, forall_and, List.forall_mem_map,
    List.mem_flatMap, forall_exists_index, and_imp]
  refine ⟨⟨⟨fun a ha => honest_onInts ha, fun s a ha hs => ?_⟩, honest_negations⟩, honest_powers⟩
  simp only [List.mem_cons, List.not_mem_nil, or_false] at hs
  rcases hs with rfl | rfl
  · exact honest_onReals ha
  · exact honest_withPlain

/-- Only two of the comparisons can be made of ranges. -/
theorem honest_logic : ∀ s ∈ logicOperators, Honest s := by
  simp only [logicOperators, List.forall_mem_cons, List.not_mem_nil, false_imp_iff, implies_true,
    and_true]
  refine ⟨?_, honest_withToken, ?_, honest_withToken, honest_withToken, honest_withToken,
    honest_withToken, honest_withToken, honest_withToken⟩
  · exact honest_withToken.withRanged
      (honest_intervalComparison kinds_ranged_bool fun _ _ => Interval.honest_less)
  · exact honest_withToken.withRanged
      (honest_intervalComparison kinds_ranged_bool fun _ _ => Interval.honest_greater)

theorem honest_realFunction {g : Interval Double → Interval Double} {name : String}
    {h : Double → Double}
    (hg : ∀ a, WellFormed a.info → Info.Honest [a.info] (g a).info (g a = .undefined)) :
    Honest (withRanged (realFunction name h) (.interval g)) :=
  honest_withPlain.withRanged (honest_interval kinds_ranged_real hg)

theorem honest_named : ∀ s ∈ namedFunctions, Honest s := by
  simp only [namedFunctions, List.forall_mem_cons, List.not_mem_nil, false_imp_iff, implies_true,
    and_true]
  refine ⟨honest_withPlain, honest_withPlain, honest_withPlain,
    honest_realFunction fun _ => Interval.honest_exp,
    honest_realFunction fun _ => Interval.honest_ln,
    honest_realFunction fun _ => Interval.honest_sqrt,
    honest_realFunction fun _ => Interval.honest_abs,
    honest_withPlain, honest_withPlain, honest_withPlain, honest_withPlain, honest_withPlain,
    honest_withPlain⟩

theorem honest_overloads : ∀ s ∈ overloads, Honest s := by
  simp only [overloads, List.mem_append, or_imp, forall_and]
  exact ⟨⟨honest_arithmetic, honest_logic⟩, honest_named⟩

/-! ### Types -/

/-- The names of the representations in the mode `interval`. -/
def rangedNames : List String :=
  ["interval_bool", "interval_int", "interval_real"]

/-- Ranges are told from plain values by their kind. -/
theorem apart_of_ranged {name name' : String} (h : name ∈ rangedNames) (h' : name' ∈ plainNames) :
    Apart name name' := by
  have hnames : ∀ n ∈ rangedNames, ∀ m ∈ plainNames, Apart n m := by decide
  exact hnames name h name' h'

theorem complaint_placedType {name : String} {initial v : Value} {stamp : Nat} {c : ConcreteType}
    (hk : kinds.lookup name = some initial.kind)
    (h : (placedType name initial).build stamp = .ok c) (hv : Belongs c.name v) :
    c.complaint v = none := by
  obtain ⟨hname, haccepts, hexplain, -⟩ := parts_of_build h
  have hname : c.name = name := hname
  have hkind : v.kind = initial.kind := (belongs_iff hk).1 (hname ▸ hv)
  have haccepts : c.accepts v = (v.kind == initial.kind) :=
    congrFun (Option.some.inj haccepts).symm v
  have hexplain : c.explain? = none := hexplain
  simp [ConcreteType.complaint, hexplain, haccepts, hkind]

/-- A range of the right kind is only refused where integers are asked for, if its ends are none. -/
theorem complaint_range {c : ConcreteType} (hc : Built c) (hranged : c.name ∈ rangedNames)
    {v : Value} (hv : Belongs c.name v) {reason : String} (h : c.complaint v = some reason) :
    c.name = "interval_int" ∧ integerIntervalComplaint v = some reason := by
  obtain ⟨p, hp, stamp, hbuild⟩ := hc
  obtain ⟨hname, -, hexplain, -⟩ := parts_of_build hbuild
  simp only [concreteTypes, List.mem_cons, List.not_mem_nil, or_false] at hp
  rcases hp with rfl | rfl | rfl | rfl | rfl | rfl | rfl
  · exact absurd (hname ▸ hranged) (by decide)
  · exact absurd (hname ▸ hranged) (by decide)
  · exact absurd (hname ▸ hranged) (by decide)
  · exact absurd (hname ▸ hranged) (by decide)
  · rw [complaint_placedType kinds_ranged_bool hbuild hv] at h
    cases h
  · refine ⟨hname, ?_⟩
    unfold ConcreteType.complaint at h
    rw [hexplain] at h
    exact h
  · rw [complaint_placedType kinds_ranged_real hbuild hv] at h
    cases h

/-! ### Conversions -/

/-- A range is only converted to a range, by a copy. -/
theorem copies_of_ranged : ∀ s ∈ concreteCasts, (∃ n ∈ s.arguments, n ∈ rangedNames) →
    s.function.isNone ∧ s.isIdentity = true := by
  decide

/-- What a plain value is lifted to is the range that holds it alone, or undefined. -/
theorem wellFormed_of_lifted : ∀ s ∈ concreteCasts, (∃ n ∈ s.arguments, n ∈ plainNames) →
    s.result ∈ rangedNames → ∃ f, s.function = some f ∧ ∀ v place,
      Belongs s.result (f.result [v] place) ∧ WellFormed (f.result [v] place).flags := by
  have hall : WellFormed Info.all := by decide
  have hpoint : ∀ x : Double, WellFormed (Interval.point x).info := by
    intro x
    unfold Interval.point
    split
    · exact wellFormed_zero
    · exact hall
  simp only [concreteCasts, List.forall_mem_cons, List.not_mem_nil, false_imp_iff, implies_true,
    and_true]
  refine ⟨?_, ?_, ?_, ?_, ?_, ?_, ?_⟩
  · exact fun _ h => absurd h (by decide)
  · exact fun _ h => absurd h (by decide)
  · exact fun _ h => absurd h (by decide)
  · exact fun h => absurd h (by decide)
  · refine fun _ _ => ⟨_, rfl, fun v place => ?_⟩
    simp only [inPlace₁, result, Value.write_eq]
    exact ⟨belongs_of_kind kinds_ranged_bool, hall⟩
  · refine fun _ _ => ⟨_, rfl, fun v place => ?_⟩
    simp only [inPlace₁, result, Value.write_eq]
    exact ⟨belongs_of_kind kinds_ranged_int, hpoint _⟩
  · refine fun _ _ => ⟨_, rfl, fun v place => ?_⟩
    simp only [inPlace₁, result, Value.write_eq]
    exact ⟨belongs_of_kind kinds_ranged_real, hpoint _⟩

end Library

/-! ### The standard environment -/

namespace Environment

open Library

/-- The types that ranges represent are those of truth values, integers and real numbers. -/
theorem ranged_standard : ∀ t ∈ (standard {}).listedTypes, ∀ c ∈ t.representation? Mode.interval,
    c.name = ranged t.name ∧ t.name ∈ ["bool", "int", "real"] := by
  decide +kernel

theorem ranged_mem {name : String} (h : name ∈ ["bool", "int", "real"]) :
    ranged name ∈ rangedNames := by
  have hnames : ∀ n ∈ ["bool", "int", "real"], ranged n ∈ rangedNames := by decide
  exact hnames name h

variable {config : Config} {source target : ConcreteType} {k : Cast ConcreteCast} {v : Value}

/-- What represents a type by ranges is named after it. -/
theorem name_of_represents {t : MathType} {c : ConcreteType} (gives : (standard config).Gives t)
    (h : Overload.Represents Mode.interval t c) :
    c.name = ranged t.name ∧ t.name ∈ ["bool", "int", "real"] := by
  obtain ⟨known, hknown, hname⟩ := h
  rw [← hname]
  exact ranged_standard t (given_standard gives) known hknown

/-- Every evaluator of the mode `interval` is honest. -/
theorem honest_call {name : String} {o : Overload} {f : Evaluator}
    (candidate : o ∈ (standard config).operators.candidates name)
    (found : o.evaluator? Mode.interval = some f) {args : List Value}
    (length : args.length = f.arity) (hargs : ∀ v ∈ args, WellFormed v.flags) :
    Belongs f.result.name (f.call args) ∧
      Info.Honest (args.map Value.flags) (f.call args).flags (f.call args).Undefined := by
  obtain ⟨s, hs, p, hp, hmode, hmakes⟩ :=
    ((described_standard config).overloads name o candidate).2 _ f found
  obtain ⟨g, given, honest⟩ := honest_overloads s hs p hp hmode
  obtain ⟨harguments, hresult, -⟩ := hmakes.names
  have hlength : args.length = p.2.arguments.length := by
    rw [length, ← harguments, List.length_map, Evaluator.arity]
  rw [hmakes.call_function given, hresult]
  exact honest args _ hlength hargs

/-- A range is carried along as it is. -/
theorem carry_range (hk : (standard config).casts.concreteCast? source target = some k)
    (hsource : source.name ∈ rangedNames) : k.carry v = v := by
  cases k with
  | identity => rfl
  | convert c =>
    obtain ⟨hname, -, s, hs, hmakes⟩ := (described_standard config).conversions _ _ c
      (CastRegistry.concreteCast?_eq_convert hk)
    obtain ⟨harguments, -⟩ := hmakes.names
    rw [c.arguments_eq, List.map_singleton, hname] at harguments
    have hranged : ∃ n ∈ s.arguments, n ∈ rangedNames := by
      rw [← harguments]
      exact ⟨_, List.mem_singleton_self _, hsource⟩
    obtain ⟨hfunction, hidentity⟩ := copies_of_ranged s hs hranged
    exact hmakes.call_identity (Option.isNone_iff_eq_none.1 hfunction) hidentity v

/-- A plain value is carried to a range with well-formed flags. -/
theorem carry_plain (hk : (standard config).casts.concreteCast? source target = some k)
    (hsource : source.name ∈ plainNames) (htarget : target.name ∈ rangedNames) :
    Belongs target.name (k.carry v) ∧ WellFormed (k.carry v).flags := by
  cases k with
  | identity =>
    exact absurd (CastRegistry.concreteCast?_eq_identity hk).symm
      (apart_of_ranged htarget hsource).ne
  | convert c =>
    obtain ⟨hname, hname', s, hs, hmakes⟩ := (described_standard config).conversions _ _ c
      (CastRegistry.concreteCast?_eq_convert hk)
    obtain ⟨harguments, hresult, -⟩ := hmakes.names
    rw [c.arguments_eq, List.map_singleton, hname] at harguments
    have hplain : ∃ n ∈ s.arguments, n ∈ plainNames := by
      rw [← harguments]
      exact ⟨_, List.mem_singleton_self _, hsource⟩
    have hs' : s.result = target.name := hresult.symm.trans hname'
    obtain ⟨f, given, hlift⟩ := wellFormed_of_lifted s hs hplain (hs' ▸ htarget)
    have hcall : (Cast.convert c).carry v = f.result [v] c.evaluator.result.initial :=
      hmakes.call_function given
    rw [hcall, ← hs']
    exact hlift v _

end Environment

end Formula
