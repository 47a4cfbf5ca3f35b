import Formula.Proofs.Library.Frames
import Formula.Proofs.Library.Harmony
import Formula.Proofs.Program.Replacement
/-!
A constant over the standard library is as good as a variable that is given its value: what is
converted ahead of every run is what is converted when it is read.
-/

namespace Formula

namespace Library

/-- The values of the types of two names are of different kinds. -/
def Apart (source target : String) : Prop :=
  (kinds.lookup source).isSome ∧ (kinds.lookup target).isSome ∧
    kinds.lookup source ≠ kinds.lookup target

instance (source target : String) : Decidable (Apart source target) :=
  inferInstanceAs (Decidable (_ ∧ _))

variable {source target : String}

theorem Apart.ne (h : Apart source target) : source ≠ target :=
  fun heq => h.2.2 (heq ▸ rfl)

theorem Apart.not_belongs (h : Apart source target) {v : Value} (hv : Belongs source v) :
    ¬ Belongs target v := by
  obtain ⟨hs, ht, hne⟩ := h
  obtain ⟨k, hk⟩ := Option.isSome_iff_exists.1 hs
  obtain ⟨l, hl⟩ := Option.isSome_iff_exists.1 ht
  intro hv'
  rw [hk, hl, ← hv k hk, ← hv' l hl] at hne
  exact hne rfl

end Library

namespace Direct

variable {isChecked : Bool} {target : ConcreteType} {name : String} {v : Value}

theorem received_of_complaint (h : target.complaint v = none) :
    received isChecked none target name v = .ok v := by
  cases isChecked <;> simp [received, h]

theorem received_of_refused {l : Lift} (refused : target.accepts v = false)
    (accepted : l.source.accepts v = true) :
    received isChecked (some l) target name v = .ok (l.conversion.apply v) := by
  have hfilter : (some l).filter (fun l => !target.accepts v && l.source.accepts v) = some l := by
    simp [Option.filter_some, refused, accepted]
  rw [received, hfilter]

end Direct

namespace Environment

open Library

/-- Where a type is represented by something else than plain values, it is by values of another
kind. -/
theorem apart_standard : ∀ t ∈ (standard {}).types.mathematical.values,
    ∀ s ∈ t.representation? Mode.normal, ∀ r ∈ t.representations.entries, r.1 ≠ Mode.normal →
      Apart s.name r.2.name := by
  decide +kernel

variable {config : Config} {key : String} {t : MathType} {v : Value}

/-- A value of a registered type is received in a representation as what it is carried to. -/
theorem received_eq_carry (known : (standard config).types.mathematical.get? key = some t)
    {mode : Mode} {source target : ConcreteType} {k : Cast ConcreteCast}
    (hsource : t.representation? Mode.normal = some source)
    (htarget : t.representation? mode = some target) (belongs : source.complaint v = none)
    (hk : (standard config).casts.concreteCast? source target = some k) (isChecked : Bool)
    (name : String) :
    Direct.received isChecked (k.conversion?.map (Lift.mk source)) target name v =
      .ok (k.carry v) := by
  have furnished := furnished_standard config
  have hplain : Plain source := furnished.mathematical key t known source hsource
  have hv : Belongs source.name v := (hplain.accepts_iff v).1 (hplain.complaint_eq_none.1 belongs)
  have hapart : mode ≠ Mode.normal → Apart source.name target.name := fun hmode =>
    apart_standard t (known_standard known) source hsource _
      (Directory.mem_entries_of_get? htarget) hmode
  cases k with
  | identity =>
    have hnames := CastRegistry.concreteCast?_eq_identity hk
    -- types of one name are only met in the mode `normal`, where they are one type
    have hmode : mode = Mode.normal := by
      by_contra hmode
      exact (hapart hmode).ne hnames
    rw [hmode] at htarget
    obtain rfl := Option.some.inj (hsource.symm.trans htarget)
    exact Direct.received_of_complaint belongs
  | convert c =>
    have hfind := CastRegistry.concreteCast?_eq_convert hk
    have hmode : mode ≠ Mode.normal := by
      rintro rfl
      obtain rfl := Option.some.inj (hsource.symm.trans htarget)
      simp [CastRegistry.concreteCast?] at hk
    have hrefused : target.accepts v = false := by
      rw [← Bool.not_eq_true]
      intro haccepts
      have hbuilt := furnished.representations key t known mode target htarget
      exact (hapart hmode).not_belongs hv ((known_of_built hbuilt).accepted v haccepts)
    have hconverted : source.accepts v = true := (hplain.accepts_iff v).2 hv
    exact Direct.received_of_refused hrefused hconverted

/-- A constant has the value of a variable that is given it. -/
theorem node_const_eq_node_var (normal : config.defaultMode = Mode.normal)
    (known : (standard config).types.mathematical.get? key = some t)
    (belongs : ∀ c, t.representation? config.defaultMode = some c → c.complaint v = none)
    {options : CompileOptions} (casts : options.casts = true) {a a' : Assignment} {x : String}
    (given : a'.value? x = some v) (typeName : String) (text : Option String) :
    Direct.node ((standard config).compileContext options) a
        (.const (.resolved t) v typeName text) =
      Direct.node ((standard config).compileContext options) a' (.var (.resolved t) x) := by
  refine Direct.node_const_eq_node_var casts given fun target htarget => ?_
  obtain ⟨source, hsource, hcast⟩ := (harmonious_standard normal).lifted key t known _ _ htarget
  obtain ⟨k, hk⟩ := Option.isSome_iff_exists.1 hcast
  have hbelongs : source.complaint v = none := by
    rw [config_standard] at hsource
    exact belongs source hsource
  refine ⟨source, k, hsource, hk, ?_⟩
  rw [config_standard, normal] at hsource
  exact received_eq_carry known hsource htarget hbelongs hk _ _

variable {vars vars' : VariableTypes} {e e' : Expr} {u u' : MathType} {x typeName : String}
  {text : Option String} {options : CompileOptions}

/-- With a variable in the place of a constant an expression compiles if it does with the
constant, and only then. -/
theorem compiles_iff_of_literal (normal : config.defaultMode = Mode.normal)
    (he : e.HasType (standard config) vars u) (he' : e'.HasType (standard config) vars' u')
    (replaces : Expr.Replaces (.const (.resolved t) v typeName text) (.var (.resolved t) x) e e') :
    (∃ unit, (standard config).compile options e = .ok unit) ↔
      ∃ unit, (standard config).compile options e' = .ok unit := by
  have harmony := harmonious_standard normal
  have coherent := (reachable_standard config).coherent
  have hleaf : (∀ n ∈ (Expr.const (.resolved t) v typeName text).nodes, n.ReadyFor options.mode) ↔
      ∀ n ∈ (Expr.var (.resolved t) x).nodes, n.ReadyFor options.mode := by
    simp
  rw [harmony.compiles_iff coherent he, harmony.compiles_iff coherent he',
    replaces.ready_iff hleaf]

/-- With a variable in the place of a constant an expression has the same value, if the variable is
given the constant's. -/
theorem evaluate_eq_of_literal (normal : config.defaultMode = Mode.normal)
    (known : (standard config).types.mathematical.get? key = some t)
    (belongs : ∀ c, t.representation? config.defaultMode = some c → c.complaint v = none)
    (he : e.HasType (standard config) vars u) (unused : ¬ e.Uses x)
    (replaces : Expr.Replaces (.const (.resolved t) v typeName text) (.var (.resolved t) x) e e')
    (casts : options.casts = true) (inner : x ∉ options.exported) (arguments : List Value)
    (scope : Scope) :
    (standard config).evaluate options e arguments scope =
      (standard config).evaluate options e' arguments (scope.insert x v) := by
  have agree : ∀ name, e.Uses name →
      Assignment.value? { exported := options.exported, arguments, scope } name =
        Assignment.value? { exported := options.exported, arguments, scope := scope.insert x v }
          name := by
    intro name hname
    have hne : name ≠ x := fun heq => unused (heq ▸ hname)
    exact (Assignment.value?_insert_of_ne hne).symm
  have hnode := Direct.node_replaces replaces he agree (node_const_eq_node_var normal known belongs
    casts (Assignment.value?_insert_self inner) typeName text)
  rw [evaluate, evaluate, hnode]

/-- Over the standard library it cannot be seen that constants are converted ahead of every run. If
a constant is replaced by a variable of its type that occurs nowhere else, the same types and
overloads are found around it, and where one of the expressions compiles with conversions of
variables, so does the other. The programs give the same value or the same error, on any frames,
if the variable is given the value of the constant. -/
theorem literal_as_variable (normal : config.defaultMode = Mode.normal) (vars : VariableTypes)
    {slot slot' : TypeSlot}
    (replaces : Expr.Replaces (.const slot v typeName text) (.var slot' x) e e')
    (unused : ¬ e.Uses x) (resolved : ((standard config).resolve vars e).2.hasErrors = false) :
    ((standard config).resolve (vars.insert x typeName) e').2.hasErrors = false ∧
    (∃ t, Expr.Replaces (.const (.resolved t) v typeName text) (.var (.resolved t) x)
      ((standard config).resolve vars e).1
      ((standard config).resolve (vars.insert x typeName) e').1) ∧
    ∀ options : CompileOptions, options.casts = true → x ∉ options.exported →
      ((∃ unit, (standard config).compile options ((standard config).resolve vars e).1 = .ok unit) ↔
        ∃ unit', (standard config).compile options
          ((standard config).resolve (vars.insert x typeName) e').1 = .ok unit') ∧
      ∀ unit unit',
        (standard config).compile options ((standard config).resolve vars e).1 = .ok unit →
        (standard config).compile options
          ((standard config).resolve (vars.insert x typeName) e').1 = .ok unit' →
        ∀ arguments scope frame frame', (unit.evaluateIn arguments scope frame).1 =
          (unit'.evaluateIn arguments (scope.insert x v) frame').1 := by
  obtain ⟨t, known, belongs, hreplaces, hfound⟩ :=
    replaces.resolve_literal unused (Outcome.hasErrors_eq_false.1 resolved)
  rw [config_standard] at belongs
  have resolved' : ((standard config).resolve (vars.insert x typeName) e').2.hasErrors = false :=
    Outcome.hasErrors_eq_false.2 hfound
  obtain ⟨u, hu⟩ := Expr.hasType_resolve resolved
  obtain ⟨u', hu'⟩ := Expr.hasType_resolve resolved'
  refine ⟨resolved', ⟨t, hreplaces⟩, fun options casts inner => ⟨?_, ?_⟩⟩
  · exact compiles_iff_of_literal normal hu hu' hreplaces
  · intro unit unit' hunit hunit' arguments scope frame frame'
    have hunused : ¬ ((standard config).resolve vars e).1.Uses x :=
      fun h => unused (Expr.uses_resolve.1 h)
    exact evaluateIn_eq_of_evaluate (reachable_standard config).coherent hu hunit
      (fun _ => (furnished_standard config).overwrites) hu' hunit'
      (evaluate_eq_of_literal normal known belongs hu hunused hreplaces casts inner arguments scope)
      frame frame'

/-- The expression `x ^ 2 < limit`. -/
def squareBelowLimit : Expr :=
  .op .pending "<"
    [.op .pending "^" [.var .pending "x", .const .pending (.int 2) "int" none] none,
      .var .pending "limit"] none

/-- As ranges, squares are compared to a limit of 9 as they are to the number. -/
theorem evaluate_squareBelowLimit :
    ∃ unit unit',
      (standard {}).compile { mode := Mode.interval, casts := true }
        ((standard {}).resolve .empty squareBelow).1 = .ok unit ∧
      (standard {}).compile { mode := Mode.interval, casts := true }
        ((standard {}).resolve (Directory.empty.insert "limit" "int") squareBelowLimit).1 =
          .ok unit' ∧
      ∀ scope frame frame', (unit.evaluateIn [] scope frame).1 =
        (unit'.evaluateIn [] (scope.insert "limit" (.int 9)) frame').1 := by
  have hresolved : ((standard {}).resolve .empty squareBelow).2.hasErrors = false := by
    decide +kernel
  have hcompiled : ((standard {}).compile { mode := Mode.interval, casts := true }
      ((standard {}).resolve .empty squareBelow).1).isOk = true := by
    decide +kernel
  have hreplaces : Expr.Replaces (.const .pending (.int 9) "int" none) (.var .pending "limit")
      squareBelow squareBelowLimit :=
    @Expr.Replaces.op _ _ _ _ [_] _ _ [] _ .here
  have hunused : ¬ squareBelow.Uses "limit" := by
    simp [squareBelow, Expr.Uses]
  obtain ⟨-, -, hboth⟩ := literal_as_variable rfl .empty hreplaces hunused hresolved
  obtain ⟨hcompiles, hruns⟩ :=
    hboth { mode := Mode.interval, casts := true } rfl List.not_mem_nil
  cases hunit : (standard {}).compile { mode := Mode.interval, casts := true }
      ((standard {}).resolve .empty squareBelow).1 with
  | error err =>
    rw [hunit] at hcompiled
    cases hcompiled
  | ok unit =>
    obtain ⟨unit', hunit'⟩ := hcompiles.1 ⟨unit, hunit⟩
    exact ⟨unit, unit', rfl, hunit', hruns unit unit' hunit hunit' []⟩

end Environment

end Formula
