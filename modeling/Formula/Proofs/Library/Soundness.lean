import Formula.Proofs.Library.Standard
import Formula.Proofs.Program.Correctness
import Formula.Proofs.Program.Soundness
/-!
The standard library is sound in the mode `normal`: no expression that resolves over it comes to
an error or to a value of another type than its own, and no function of the library is handed a
value that it does not read.
-/

namespace Formula

/-- What is looked for in arguments of a kind is found in a value. -/
def Kind.FoundIn : Kind → Value → Prop
  | bool, v => v.bool?.isSome
  | int, v => v.int?.isSome ∧ v.number?.isSome
  | real, v => v.number?.isSome
  | complex, v => v.complex?.isSome
  | interval, v => v.interval?.isSome
  | boolInterval, v => v.boolInterval?.isSome

theorem Kind.foundIn_kind (v : Value) : v.kind.FoundIn v := by
  cases v <;> simp [FoundIn, Value.kind, Value.bool?, Value.int?, Value.number?, Value.complex?,
    Value.interval?, Value.boolInterval?]

namespace Library

/-- A value fits a type: it is accepted, and reading it as one of the type finds what it looks for,
so that nothing undefined is put in its place. -/
def Fits (c : ConcreteType) (v : Value) : Prop :=
  c.accepts v = true ∧ ∃ k, kinds.lookup c.name = some k ∧ k.FoundIn v

theorem kind_of_plainNames : ∀ n ∈ plainNames, (kinds.lookup n).isSome := by decide

theorem Plain.fits {c : ConcreteType} (hc : Plain c) {v : Value} (hv : Belongs c.name v) :
    Fits c v := by
  obtain ⟨k, hk⟩ := Option.isSome_iff_exists.1 (kind_of_plainNames c.name hc.2)
  obtain rfl := hv k hk
  exact ⟨(hc.accepts_iff v).2 hv, v.kind, hk, Kind.foundIn_kind v⟩

/-! ### Typing over the library -/

/-- What programs over the library are typed against: lawful evaluators of plain values that the
expression or a conversion calls. -/
def typing (env : Environment) (vars : VariableTypes) (options : CompileOptions) (e : Expr) :
    Compile.Typing where
  env
  vars
  options
  belongs := Belongs
  uses := e.Uses
  calls f := (e.Calls options.mode f ∨ env.Converts f) ∧ f.Lawful ∧ f.Plain

variable {config : Config} {env : Environment} {vars : VariableTypes} {options : CompileOptions}
  {e : Expr}

section Closed

variable (furnished : Furnished config env) (mode : options.mode = Mode.normal)

include furnished mode

theorem plain_of_known {name : String} {t : MathType} {c : ConcreteType}
    (known : env.types.mathematical.get? name = some t)
    (represented : t.representation? options.mode = some c) : Plain c :=
  furnished.mathematical name t known c (mode ▸ represented)

theorem plain_of_wanted {name : String} (h : (typing env vars options e).Wanted name) :
    name ∈ plainNames := by
  cases h with
  | argument called taken => exact (called.2.2.arguments _ taken).2
  | «variable» known represented => exact (plain_of_known furnished mode known represented).2

theorem closed_typing (coherent : env.Coherent) (default : config.defaultMode = Mode.normal) :
    (typing env vars options e).Closed := by
  refine ⟨coherent, fun source target c h wanted => ?_, fun name t c v known represented hv => ?_,
    fun source target c v h hv => ?_⟩
  · obtain ⟨hlawful, hplain⟩ := furnished.conversions source target c h
    have htarget := plain_of_wanted furnished mode wanted
    exact ⟨.inr ⟨source, target, c, h, rfl⟩, hlawful, hplain htarget⟩
  · have hnormal : env.config.defaultMode = Mode.normal := by rw [furnished.config, default]
    have hc : Plain c := furnished.mathematical name t known c (hnormal ▸ represented)
    exact (hc.accepts_iff v).1 (hc.complaint_eq_none.1 hv)
  · obtain ⟨rfl, rfl⟩ := coherent.entered source target c h
    refine (furnished.conversions _ _ c h).1.sound [v] ?_
    rw [c.arguments_eq]
    exact .cons hv .nil

theorem covers_typing {t : MathType} (he : e.HasType env vars t) :
    (typing env vars options e).Covers e := by
  refine ⟨fun _ h => h, fun f hf => ⟨.inl hf, ?_⟩⟩
  obtain ⟨slot, name, cs, r, hn, hfound⟩ := hf
  obtain ⟨u, hu⟩ := he.of_mem_nodes hn
  cases hu with
  | op length operands choice =>
    have hmem := (Expr.choice_spec length choice).1
    obtain ⟨hlawful, hplain⟩ := (furnished.overloads name _ hmem).2 _ f hfound
    exact ⟨hlawful, hplain mode⟩

end Closed

theorem plainlyRepresented_of_hasType (furnished : Furnished config env) {t : MathType}
    (he : e.HasType env vars t) : PlainlyRepresented t := by
  induction he with
  | group child ih => exact ih
  | var known => exact furnished.mathematical _ _ known
  | const known belongs => exact furnished.mathematical _ _ known
  | op length operands choice ih =>
    exact (furnished.overloads _ _ (Expr.choice_spec length choice).1).1

/-- Where the default mode is compiled for, variables are not converted. -/
theorem variableConversion_eq_none (mode : options.mode = env.config.defaultMode) {t : MathType}
    {target : ConcreteType} {conversion? : Option Lift}
    (represented : t.representation? options.mode = some target)
    (h : Compile.variableConversion (env.compileContext options) t target = .ok conversion?) :
    conversion? = none := by
  unfold Compile.variableConversion at h
  split at h
  · simp only [Except.bind_eq_ok, Except.pure_eq_ok, Compile.representation_eq_ok,
      Compile.castBetween_eq_ok] at h
    obtain ⟨source, hsource, cast, hcast, rfl⟩ := h
    rw [mode] at represented
    -- source and target represent the type in one mode, and so are the same
    obtain rfl : source = target := Option.some.inj (hsource.symm.trans represented)
    simp only [CastRegistry.concreteCast?, if_pos, Option.some.injEq] at hcast
    subst hcast
    rfl
  · exact (Except.pure_eq_ok.1 h).symm

/-- Values of variables: each variable that occurs in an expression is given a value that the
representation of its type accepts. -/
def Given (a : Assignment) (e : Expr) : Prop :=
  ∀ t name, Expr.var (.resolved t) name ∈ Expr.nodes e → ∃ v, a.value? name = some v ∧
    ∀ c, t.representation? Mode.normal = some c → c.accepts v = true

/-- Values of variables in a mode: each variable that occurs in an expression is given a value that
the representation of its type in the mode accepts. -/
def GivenIn (mode : Mode) (a : Assignment) (e : Expr) : Prop :=
  ∀ t name, Expr.var (.resolved t) name ∈ Expr.nodes e → ∃ v, a.value? name = some v ∧
    ∀ c, t.representation? mode = some c → c.accepts v = true

/-- Whether the variable that a node reads, if it reads one, is given a value of its type. -/
def isGivenIn (mode : Mode) (a : Assignment) : Expr → Bool
  | .var (.resolved t) name =>
    match a.value? name with
    | some v => (t.representation? mode).all fun c => c.accepts v
    | none => false
  | _ => true

theorem givenIn_iff {mode : Mode} {a : Assignment} :
    GivenIn mode a e ↔ ∀ n ∈ Expr.nodes e, isGivenIn mode a n = true := by
  constructor
  · intro h n hn
    cases n with
    | var slot name =>
      cases slot with
      | resolved t =>
        obtain ⟨v, hv, haccepts⟩ := h t name hn
        simp only [isGivenIn, hv, Option.all_eq_true]
        exact haccepts
      | _ => rfl
    | _ => rfl
  · intro h t name hn
    have hgiven := h _ hn
    cases hv : a.value? name with
    | none => simp [isGivenIn, hv] at hgiven
    | some v =>
      simp only [isGivenIn, hv, Option.all_eq_true] at hgiven
      exact ⟨v, rfl, hgiven⟩

instance (mode : Mode) (a : Assignment) (e : Expr) : Decidable (GivenIn mode a e) :=
  decidable_of_iff _ givenIn_iff.symm

instance (a : Assignment) (e : Expr) : Decidable (Given a e) :=
  inferInstanceAs (Decidable (GivenIn Mode.normal a e))

theorem sound_typing (furnished : Furnished config env) (mode : options.mode = Mode.normal)
    (default : config.defaultMode = Mode.normal) {t : MathType} (he : e.HasType env vars t)
    {arguments : List Value} (length : arguments.length = options.exported.length) {scope : Scope}
    (given : Given { exported := options.exported, arguments, scope } e) {constants : Array Value} :
    (typing env vars options e).Sound { arguments, scope, constants } := by
  have hmode : options.mode = env.config.defaultMode := by rw [mode, furnished.config, default]
  refine ⟨fun f hf => hf.2.1.sound, fun name t target conversion? _ represented h => ?_,
    fun name t target used known represented h => ?_⟩
  · exact variableConversion_eq_none hmode represented h
  · obtain ⟨slot, hn⟩ := used
    obtain ⟨u, hu⟩ := he.of_mem_nodes hn
    -- the type in the slot of the variable is the one that is known under its name
    cases hu with
    | var known' =>
      obtain rfl : t = u := Option.some.inj (known.symm.trans known')
      obtain ⟨v, hv, haccepts⟩ := given t name hn
      have hc := plain_of_known furnished mode known represented
      have hv' := haccepts target (mode ▸ represented)
      refine ⟨v, ?_, (hc.accepts_iff v).1 hv'⟩
      have hcomplaint : target.complaint v = none := hc.complaint_eq_none.2 hv'
      rw [Compile.Typing.value_readOf length h, Direct.variableValue]
      have hassigned : ((typing env vars options e).assignment
          { arguments, scope, constants }).value? name = some v := hv
      have hconversion : Compile.variableConversion (typing env vars options e).context t target =
          .ok none := h
      simp [hconversion, hassigned, Direct.received, hcomplaint]

theorem plain_of_bindings (furnished : Furnished config env) (mode : options.mode = Mode.normal)
    {p : Program} (hp : (typing env vars options e).OfProgram p) {i : Nat} {x : Binding}
    (hx : p.bindings[i]? = some x) : Plain x.type := by
  cases hp.bindings i x hx with
  | read used known represented converted => exact plain_of_known furnished mode known represented
  | apply called applies operands => exact called.2.2.result

end Library

namespace Environment

open Library

/-- A run of a compiled expression is sound: it gives a value that the representation of the type of
the expression accepts and leaves in every slot a value that its type accepts, and all that is
handed to evaluators, in the run or ahead of it, fits the types that these take. -/
structure SoundRun (env : Environment) (options : CompileOptions) (e : Expr) (unit : CompiledUnit)
    (arguments : List Value) (scope : Scope) (frame : Frame) : Prop where
  value : ∃ t c v, e.slot = .resolved t ∧ t.representation? options.mode = some c ∧
    (unit.evaluateIn arguments scope frame).1 = .ok v ∧ c.accepts v = true
  size : (unit.evaluateIn arguments scope frame).2.slots.size = unit.program.bindings.size
  slots : ∀ (i : Nat) x, unit.program.bindings[i]? = some x → ∃ v,
    (unit.evaluateIn arguments scope frame).2.slots[i]? = some v ∧ x.type.accepts v = true
  handed : ∀ (i : Nat) x slots, unit.program.bindings[i]? = some x →
    Program.runFrom { arguments, scope, constants := unit.program.constants } 0
      (unit.program.startOf frame) (unit.program.bindings.toList.take i) = (.ok (), slots) →
    x.Handed (fun f => e.Calls options.mode f ∨ env.Converts f) Fits
      { arguments, scope, constants := unit.program.constants } slots
  folded : ∀ c v, Compile.Folds (env.compileContext options) e c v → Fits c.source v

theorem soundRun_of_furnished {config : Config} {env : Environment} {vars : VariableTypes}
    {options : CompileOptions} {e : Expr} {t : MathType} {unit : CompiledUnit}
    {arguments : List Value} {scope : Scope} (furnished : Furnished config env)
    (coherent : env.Coherent) (default : config.defaultMode = Mode.normal)
    (mode : options.mode = Mode.normal) (he : e.HasType env vars t)
    (compiled : env.compile options e = .ok unit)
    (length : arguments.length = options.exported.length)
    (given : Given { exported := options.exported, arguments, scope } e) (frame : Frame) :
    env.SoundRun options e unit arguments scope frame := by
  have hT : (typing env vars options e).Closed := closed_typing furnished mode coherent default
  have hcovers := covers_typing furnished mode he
  have hp := (Compile.Typing.program_typed hT he hcovers (compile_eq_ok compiled)).1
  have hover : ∀ f, (typing env vars options e).calls f → f.Overwrites :=
    fun f hf => hf.2.1.overwrites
  have hsound : (typing env vars options e).Sound
      { arguments, scope, constants := unit.program.constants } :=
    sound_typing furnished mode default he length given
  obtain ⟨⟨c, v, hc, hvalue, hv⟩, hsize, hslots⟩ := Compile.Typing.evaluateIn_delivers hT he
    hcovers hover compiled length hsound.delivers frame
  constructor
  case value =>
    have hplain := plainlyRepresented_of_hasType furnished he c (mode ▸ hc)
    exact ⟨t, c, v, he.slot_eq, hc, hvalue, (hplain.accepts_iff v).2 hv⟩
  case size => exact hsize
  case slots =>
    intro i x hx
    obtain ⟨w, hw, hbelongs⟩ := hslots i x hx
    have hplain := plain_of_bindings furnished mode hp hx
    exact ⟨w, hw, (hplain.accepts_iff w).2 hbelongs⟩
  case handed =>
    intro i x slots hx hbefore
    refine (hp.handed hT hover hsound frame hx hbefore).mono (fun f hf => hf.1) ?_
    intro f hf c hc v hv
    exact (hf.2.2.arguments c hc).fits hv
  case folded =>
    intro c v h
    obtain ⟨hcalls, hv⟩ := Compile.Typing.folds_sound hT he hcovers h
    have hsource : c.source ∈ c.evaluator.arguments := by simp [c.arguments_eq]
    exact (hcalls.2.2.arguments _ hsource).fits hv

/-- Over the standard library, every run for the mode `normal` of an expression that resolves
without errors is sound, whenever its variables are given values of their types. -/
theorem standard_sound {config : Config} (default : config.defaultMode = Mode.normal)
    (vars : VariableTypes) {e : Expr}
    (resolved : ((standard config).resolve vars e).2.hasErrors = false)
    {options : CompileOptions} (mode : options.mode = Mode.normal) {unit : CompiledUnit}
    (compiled :
      (standard config).compile options ((standard config).resolve vars e).1 = .ok unit)
    {arguments : List Value} (length : arguments.length = options.exported.length) {scope : Scope}
    (given : Given { exported := options.exported, arguments, scope }
      ((standard config).resolve vars e).1) (frame : Frame) :
    (standard config).SoundRun options ((standard config).resolve vars e).1 unit arguments scope
      frame := by
  have hfurnished := furnished_standard config
  have hcoherent := (reachable_standard config).coherent
  obtain ⟨t, ht⟩ := Expr.hasType_resolve resolved
  exact soundRun_of_furnished hfurnished hcoherent default mode ht compiled length given frame

/-- The expression `ifelse(x < 2, x, re(complex(x, 1) * 2))`. -/
def branching : Expr :=
  .op .pending "ifelse"
    [.op .pending "<" [.var .pending "x", .const .pending (.int 2) "int" none] none,
      .var .pending "x",
      .op .pending "re"
        [.op .pending "*"
          [.op .pending "complex" [.var .pending "x", .const .pending (.int 1) "int" none] none,
            .const .pending (.int 2) "int" none] none] none] none

/-- With `x = 3` the run is sound on any frame: the integers are brought to real and complex numbers
ahead. -/
theorem soundRun_branching :
    ∃ unit, (standard {}).compile {} ((standard {}).resolve .empty branching).1 = .ok unit ∧
      ∀ frame, (standard {}).SoundRun {} ((standard {}).resolve .empty branching).1 unit []
        (Directory.empty.insert "x" (.real 3)) frame := by
  have hchecked : ((standard {}).resolve .empty branching).2.hasErrors = false ∧
      ((standard {}).compile {} ((standard {}).resolve .empty branching).1).isOk = true ∧
      Given { exported := [], arguments := [], scope := Directory.empty.insert "x" (.real 3) }
        ((standard {}).resolve .empty branching).1 := by decide +kernel
  obtain ⟨hresolved, hcompiled, hgiven⟩ := hchecked
  cases hunit : (standard {}).compile {} ((standard {}).resolve .empty branching).1 with
  | error e =>
    rw [hunit] at hcompiled
    cases hcompiled
  | ok unit =>
    exact ⟨unit, rfl, standard_sound rfl .empty hresolved rfl hunit rfl hgiven⟩

end Environment

end Formula
