import Formula.Proofs.Environment.Entries
import Formula.Proofs.Expr.Typing
import Formula.Proofs.Program.Build
/-!
The types of programs: every step is either the reading of a variable or applies an evaluator to
operands of the types that it is declared with. Compilation keeps this of the program under
construction, together with what its caches of variables and conversions promise.
-/

namespace Formula

namespace Expr

/-- A variable occurs in an expression. -/
def Uses (e : Expr) (name : String) : Prop :=
  ∃ slot, var slot name ∈ nodes e

/-- An evaluator stands for an operator of an expression in a mode. -/
def Calls (e : Expr) (mode : Mode) (f : Evaluator) : Prop :=
  ∃ slot name cs r, op slot name cs (some r) ∈ nodes e ∧ r.overload.evaluator? mode = some f

theorem Uses.mono {c e : Expr} {name : String} (h : c.Uses name) (hc : nodes c ⊆ nodes e) :
    e.Uses name := by
  obtain ⟨slot, hn⟩ := h
  exact ⟨slot, hc hn⟩

theorem Calls.mono {c e : Expr} {mode : Mode} {f : Evaluator} (h : c.Calls mode f)
    (hc : nodes c ⊆ nodes e) : e.Calls mode f := by
  obtain ⟨slot, name, cs, r, hn, hf⟩ := h
  exact ⟨slot, name, cs, r, hc hn, hf⟩

end Expr

namespace Compile

/-- What programs are typed against. -/
structure Typing where
  env : Environment
  vars : VariableTypes
  options : CompileOptions
  /-- The values that belong to the types of a name. -/
  belongs : String → Value → Prop
  /-- The variables that may be read. -/
  uses : String → Prop
  /-- The evaluators that may be applied. -/
  calls : Evaluator → Prop

namespace Typing

variable (T : Typing)

/-- What compilation depends on. -/
def context : Context :=
  T.env.compileContext T.options

/-- An operand holds values of the types of a name: it is the slot of such a type before the step
`index`, or a constant that belongs to them. -/
inductive Holds (bindings : Array Binding) (constants : Array Value) (index : Nat)
    (type : String) : Operand → Prop
  | slot {i x} (before : i < index) (found : bindings[i]? = some x) (named : x.type.name = type) :
      Holds bindings constants index type (.slot i)
  | constant {i v} (found : constants[i]? = some v) (belongs : T.belongs type v) :
      Holds bindings constants index type (.constant i)

/-- The binding of the slot `index` reads a variable into the representation of its type, or applies
an evaluator to operands of its types. -/
inductive Typed (bindings : Array Binding) (constants : Array Value) (index : Nat) : Binding → Prop
  | read {name t target conversion?} (used : T.uses name)
      (known : T.env.types.mathematical.get? (Expr.variableTypeName T.env T.vars name) = some t)
      (represented : t.representation? T.options.mode = some target)
      (converted : variableConversion T.context t target = .ok conversion?) :
      Typed bindings constants index
        { step := readOf T.context name target conversion?, type := target }
  | apply {step e xs} (called : T.calls e) (applies : step.Applies e xs)
      (operands : List.Forall₂ (fun x c => T.Holds bindings constants index c.name x)
        xs e.arguments) :
      Typed bindings constants index { step, type := e.result }

/-- The slot `i` reads a variable of a type. -/
def ReadAt (b : Build) (name : String) (t : MathType) (target : ConcreteType) (i : Nat) : Prop :=
  ∃ conversion?, variableConversion T.context t target = .ok conversion? ∧
    b.bindings[i]? = some { step := readOf T.context name target conversion?, type := target }

/-- The slot `i` converts the slot `source`. -/
def ConvertedAt (b : Build) (source : Nat) (c : ConcreteCast) (i : Nat) : Prop :=
  ∃ f, b.bindings[i]? = some { step := .convert f c (.slot source), type := c.target }

/-- What compilation keeps of a program under construction: its bindings are typed, and the slots
that are known for variables and conversions read and convert them. -/
structure Valid (b : Build) : Prop where
  typed : ∀ i x, b.bindings[i]? = some x → T.Typed b.bindings b.constants i x
  reads : ∀ name i, b.reads.lookup name = some i → ∃ t target,
    T.env.types.mathematical.get? (Expr.variableTypeName T.env T.vars name) = some t ∧
    t.representation? T.options.mode = some target ∧ T.ReadAt b name t target i
  conversions : ∀ source target i, b.conversions.lookup (source, target) = some i → ∃ x c,
    b.bindings[source]? = some x ∧
    CastRegistry.find? T.env.casts.concrete x.type.name target = some c ∧ ConvertedAt b source c i

/-- What an expression was compiled to holds values of the types of a name. -/
def Keeps (b : Build) (type : String) : Bound → Prop
  | .slot i => ∃ x, b.bindings[i]? = some x ∧ x.type.name = type
  | .literal v => T.belongs type v

/-- The names of the types that values are converted to: those of the arguments of evaluators and
of the representations of variables. -/
inductive Wanted : String → Prop
  | argument {e c} (called : T.calls e) (taken : c ∈ e.arguments) : Wanted c.name
  | variable {name t c} (known : T.env.types.mathematical.get? name = some t)
      (represented : t.representation? T.options.mode = some c) : Wanted c.name

/-- What the typing of programs rests on: the environment is coherent, its conversions to types that
are wanted may be applied, and the values that belong to types are so chosen that checked constants
do, and that conversions lead from some to others. -/
structure Closed : Prop where
  coherent : T.env.Coherent
  calls : ∀ source target c, CastRegistry.find? T.env.casts.concrete source target = some c →
    T.Wanted target → T.calls c.evaluator
  constant : ∀ name t c v, T.env.types.mathematical.get? name = some t →
    t.representation? T.env.config.defaultMode = some c → c.complaint v = none →
    T.belongs c.name v
  conversion : ∀ source target c v,
    CastRegistry.find? T.env.casts.concrete source target = some c →
    T.belongs source v → T.belongs target (c.apply v)

/-- The variables of an expression may be read, and the evaluators of its operators applied. -/
structure Covers (e : Expr) : Prop where
  uses : ∀ name, e.Uses name → T.uses name
  calls : ∀ f, e.Calls T.options.mode f → T.calls f

variable {T}

theorem Covers.mono {c e : Expr} (h : T.Covers e) (hc : Expr.nodes c ⊆ Expr.nodes e) :
    T.Covers c :=
  ⟨fun name hn => h.uses name (hn.mono hc), fun f hf => h.calls f (hf.mono hc)⟩

/-! ### Extension -/

theorem Holds.mono {bs bs' : Array Binding} {cs cs' : Array Value} {index : Nat} {type : String}
    {x : Operand} (h : T.Holds bs cs index type x) (hb : bs.toList <+: bs'.toList)
    (hc : cs.toList <+: cs'.toList) : T.Holds bs' cs' index type x := by
  cases h with
  | slot before found named =>
    exact .slot before (Build.Extends.getElem?_grown hb found) named
  | constant found belongs =>
    exact .constant (Build.Extends.getElem?_grown hc found) belongs

theorem Typed.mono {bs bs' : Array Binding} {cs cs' : Array Value} {index : Nat} {x : Binding}
    (h : T.Typed bs cs index x) (hb : bs.toList <+: bs'.toList) (hc : cs.toList <+: cs'.toList) :
    T.Typed bs' cs' index x := by
  cases h with
  | read used known represented converted => exact .read used known represented converted
  | apply called applies operands =>
    exact .apply called applies (operands.imp fun _ _ h => h.mono hb hc)

/-- An operand that holds stays one for the steps still to come. -/
theorem Holds.later {b b' : Build} {type : String} {x : Operand}
    (h : T.Holds b.bindings b.constants b.bindings.size type x) (hb : b.Extends b') :
    T.Holds b'.bindings b'.constants b'.bindings.size type x := by
  have hsize : b.bindings.size ≤ b'.bindings.size := hb.bindings.length_le
  cases h with
  | slot before found named => exact .slot (by omega) (hb.binding found) named
  | constant found belongs => exact .constant (hb.constant found) belongs

variable {b b' : Build}

theorem ReadAt.mono {name : String} {t : MathType} {target : ConcreteType} {i : Nat}
    (h : T.ReadAt b name t target i) (hb : b.Extends b') : T.ReadAt b' name t target i := by
  obtain ⟨conversion?, hconversion, hbinding⟩ := h
  exact ⟨conversion?, hconversion, hb.binding hbinding⟩

theorem ConvertedAt.mono {source i : Nat} {c : ConcreteCast} (h : ConvertedAt b source c i)
    (hb : b.Extends b') : ConvertedAt b' source c i := by
  obtain ⟨f, hbinding⟩ := h
  exact ⟨f, hb.binding hbinding⟩

theorem valid_empty : T.Valid {} :=
  ⟨fun _ _ h => by simp at h, fun _ _ h => (nomatch h), fun _ _ _ h => (nomatch h)⟩

/-- A binding that is typed behind the others leaves them typed. -/
theorem typed_push {bs : Array Binding} {cs : Array Value} {x : Binding}
    (h : ∀ (i : Nat) y, bs[i]? = some y → T.Typed bs cs i y) (hx : T.Typed bs cs bs.size x)
    {i : Nat} {y : Binding} (hy : (bs.push x)[i]? = some y) : T.Typed (bs.push x) cs i y := by
  have hpush : bs.toList <+: (bs.push x).toList := by simp
  rw [Array.getElem?_push] at hy
  split at hy
  · rename_i heq
    cases hy
    exact heq ▸ hx.mono hpush List.prefix_rfl
  · exact (h i y hy).mono hpush List.prefix_rfl

theorem extends_push {x : Binding} (hb : b'.bindings = b.bindings.push x)
    (hc : b'.constants = b.constants) : b.Extends b' := by
  constructor
  · rw [hb]
    simp
  · exact hc ▸ List.prefix_rfl

/-! ### Steps of compilation -/

theorem keepConstant_valid {v : Value} {x : Operand} {type : String} (hb : T.Valid b)
    (hv : T.belongs type v) (h : (keepConstant v).run b = .ok (x, b')) :
    b.Extends b' ∧ T.Valid b' ∧ T.Holds b'.bindings b'.constants b'.bindings.size type x := by
  obtain ⟨i, constants, rfl, rfl, hfound, hgrown⟩ := keepConstant_run h
  have hext : b.Extends { b with constants } := ⟨List.prefix_rfl, hgrown⟩
  refine ⟨hext, ⟨fun j y hy => ?_, hb.reads, hb.conversions⟩, .constant hfound hv⟩
  exact (hb.typed j y hy).mono List.prefix_rfl hgrown

theorem holds_slot {i : Nat} {type : String} (h : T.Keeps b type (.slot i)) :
    T.Holds b.bindings b.constants b.bindings.size type (.slot i) := by
  obtain ⟨x, hx, hname⟩ := h
  obtain ⟨hi, -⟩ := Array.getElem?_eq_some_iff.1 hx
  exact .slot hi hx hname

theorem keep_valid {x : Bound} {a : Operand} {type : String} (hb : T.Valid b)
    (hx : T.Keeps b type x) (h : (keep x).run b = .ok (a, b')) :
    b.Extends b' ∧ T.Valid b' ∧ T.Holds b'.bindings b'.constants b'.bindings.size type a := by
  cases x with
  | slot i =>
    obtain ⟨rfl, rfl⟩ := run_pure_eq_ok.1 h
    exact ⟨.refl b, hb, holds_slot hx⟩
  | literal v => exact keepConstant_valid hb hx h

theorem lookup_cons_eq_some {α β : Type} [BEq α] [LawfulBEq α] {k k' : α} {v w : β}
    {l : List (α × β)} (h : List.lookup k ((k', v) :: l) = some w) :
    (k = k' ∧ w = v) ∨ l.lookup k = some w := by
  rw [List.lookup_cons] at h
  split at h
  · rename_i heq
    exact .inl ⟨eq_of_beq heq, (Option.some.inj h).symm⟩
  · exact .inr h

theorem Valid.known_reads {name : String} {i : Nat} (hb : T.Valid b) (hext : b.Extends b')
    (h : b.reads.lookup name = some i) : ∃ t target,
      T.env.types.mathematical.get? (Expr.variableTypeName T.env T.vars name) = some t ∧
      t.representation? T.options.mode = some target ∧ T.ReadAt b' name t target i := by
  obtain ⟨t, target, known, represented, hread⟩ := hb.reads name i h
  exact ⟨t, target, known, represented, hread.mono hext⟩

theorem Valid.known_conversions {source i : Nat} {target : String} (hb : T.Valid b)
    (hext : b.Extends b') (h : b.conversions.lookup (source, target) = some i) : ∃ x c,
      b'.bindings[source]? = some x ∧
      CastRegistry.find? T.env.casts.concrete x.type.name target = some c ∧
      ConvertedAt b' source c i := by
  obtain ⟨x, c, hx, hfind, hconverted⟩ := hb.conversions source target i h
  exact ⟨x, c, hext.binding hx, hfind, hconverted.mono hext⟩

/-- A variable is read into the representation of its type. -/
theorem variableSlot_valid {name : String} {t : MathType} {target : ConcreteType} {i : Nat}
    (hb : T.Valid b) (used : T.uses name)
    (known : T.env.types.mathematical.get? (Expr.variableTypeName T.env T.vars name) = some t)
    (represented : t.representation? T.options.mode = some target)
    (h : (variableSlot T.context name t target).run b = .ok (i, b')) :
    b.Extends b' ∧ T.Valid b' ∧ T.ReadAt b' name t target i := by
  rcases variableSlot_run h with ⟨hlookup, rfl⟩ | ⟨-, conversion?, hconversion, rfl, hb'⟩
  -- the name alone decides the type, so the slot was bound for the same type
  · obtain ⟨t', target', known', represented', hread⟩ := hb.reads name i hlookup
    obtain rfl : t = t' := Option.some.inj (known.symm.trans known')
    obtain rfl : target = target' := Option.some.inj (represented.symm.trans represented')
    exact ⟨.refl _, hb, hread⟩
  · have hext : b.Extends b' := by
      subst hb'
      exact extends_push rfl rfl
    have hread : T.ReadAt b' name t target b.bindings.size := by
      subst hb'
      exact ⟨conversion?, hconversion, by simp⟩
    refine ⟨hext, ⟨fun j y hy => ?_, fun name' j hj => ?_, fun source target' j hj => ?_⟩, hread⟩
    · subst hb'
      exact typed_push hb.typed (.read used known represented hconversion) hy
    · rw [hb'] at hj
      rcases lookup_cons_eq_some hj with ⟨rfl, rfl⟩ | hj
      · exact ⟨t, target, known, represented, hread⟩
      · exact hb.known_reads hext hj
    · rw [hb'] at hj
      exact hb.known_conversions hext hj

/-- A conversion of a slot is bound to the type that it is entered under. -/
theorem conversionSlot_valid {c : ConcreteCast} {source i : Nat} {target : String} {x : Binding}
    (hT : T.Closed) (hb : T.Valid b) (hx : b.bindings[source]? = some x)
    (hfind : CastRegistry.find? T.env.casts.concrete x.type.name target = some c)
    (wanted : T.Wanted target) (h : (conversionSlot c source target).run b = .ok (i, b')) :
    b.Extends b' ∧ T.Valid b' ∧ ConvertedAt b' source c i := by
  rcases conversionSlot_run h with ⟨hlookup, rfl⟩ | ⟨-, rfl, f, functions, hb'⟩
  -- the slot and the target decide the conversion, so it was bound for the same one
  · obtain ⟨x', c', hx', hfind', hconverted⟩ := hb.conversions source target i hlookup
    obtain rfl : x = x' := Option.some.inj (hx.symm.trans hx')
    obtain rfl : c = c' := Option.some.inj (hfind.symm.trans hfind')
    exact ⟨.refl _, hb, hconverted⟩
  · have hext : b.Extends b' := by
      subst hb'
      exact extends_push rfl rfl
    have hconverted : ConvertedAt b' source c b.bindings.size := by
      subst hb'
      exact ⟨f, by simp⟩
    have hsource : T.Holds b.bindings b.constants b.bindings.size c.source.name (.slot source) :=
      holds_slot ⟨x, hx, (hT.coherent.entered _ _ c hfind).1.symm⟩
    refine ⟨hext, ⟨fun j y hy => ?_, fun name j hj => ?_, fun source' target' j hj => ?_⟩,
      hconverted⟩
    · subst hb'
      refine typed_push hb.typed (.apply (hT.calls _ _ c hfind wanted) .convert ?_) hy
      rw [c.arguments_eq]
      exact .cons hsource .nil
    · rw [hb'] at hj
      exact hb.known_reads hext hj
    · rw [hb'] at hj
      rcases lookup_cons_eq_some hj with ⟨heq, rfl⟩ | hj
      · cases heq
        exact ⟨x, c, hext.binding hx, hfind, hconverted⟩
      · exact hb.known_conversions hext hj

/-- What was compiled becomes an operand of the type that is asked for. -/
theorem operand_valid {x : Bound} {source target : ConcreteType} {a : Operand} (hT : T.Closed)
    (hb : T.Valid b) (hx : T.Keeps b source.name x) (wanted : T.Wanted target.name)
    (h : (operand T.context x source target).run b = .ok (a, b')) :
    b.Extends b' ∧ T.Valid b' ∧
      T.Holds b'.bindings b'.constants b'.bindings.size target.name a := by
  rcases operand_run h with ⟨hcast, hkeep⟩ | ⟨c, hcast, ⟨v, rfl, hkeep⟩ | ⟨i, j, rfl, hslot, rfl⟩⟩
  -- types of one name have the same values, though they need not be one type
  · rw [CastRegistry.concreteCast?_eq_identity hcast] at hx
    exact keep_valid hb hx hkeep
  · have hfind := CastRegistry.concreteCast?_eq_convert hcast
    exact keepConstant_valid hb (hT.conversion _ _ c v hfind hx) hkeep
  · obtain ⟨y, hy, hname⟩ := hx
    have hfind := CastRegistry.concreteCast?_eq_convert hcast
    rw [← hname] at hfind
    obtain ⟨hext, hb', f, hbinding⟩ := conversionSlot_valid hT hb hy hfind wanted hslot
    exact ⟨hext, hb', holds_slot ⟨_, hbinding, (hT.coherent.entered _ _ c hfind).2⟩⟩

/-- An evaluator is applied to operands of its types. -/
theorem applicationSlot_valid {o : Overload} {e : Evaluator} {xs : List Operand} {i : Nat}
    (hb : T.Valid b) (called : T.calls e)
    (operands : List.Forall₂
      (fun x c => T.Holds b.bindings b.constants b.bindings.size c.name x) xs e.arguments)
    (h : (applicationSlot o e xs).run b = .ok (i, b')) :
    b.Extends b' ∧ T.Valid b' ∧ ∃ step, step.Applies e xs ∧
      b'.bindings[i]? = some { step, type := e.result } := by
  obtain ⟨rfl, step, functions, applies, hb'⟩ := applicationSlot_run h
  have hext : b.Extends b' := by
    subst hb'
    exact extends_push rfl rfl
  subst hb'
  refine ⟨hext, ⟨fun j y hy => ?_, fun name j hj => ?_, fun source target j hj => ?_⟩,
    step, applies, by simp⟩
  · exact typed_push hb.typed (.apply called applies operands) hy
  · exact hb.known_reads hext hj
  · exact hb.known_conversions hext hj

/-! ### Expressions -/

theorem castBetween_belongs {source target : ConcreteType} {c : Cast ConcreteCast} {v : Value}
    (hT : T.Closed) (h : castBetween T.context source target = .ok c)
    (hv : T.belongs source.name v) : T.belongs target.name (c.carry v) := by
  rw [castBetween_eq_ok] at h
  cases c with
  | identity => exact CastRegistry.concreteCast?_eq_identity h ▸ hv
  | convert c => exact hT.conversion _ _ c v (CastRegistry.concreteCast?_eq_convert h) hv

theorem literal_belongs {t : MathType} {target : ConcreteType} {name : String} {v w : Value}
    (hT : T.Closed) (known : T.env.types.mathematical.get? name = some t)
    (checked : ∀ c, t.representation? T.env.config.defaultMode = some c → c.complaint v = none)
    (h : literal T.context t target v = .ok w) : T.belongs target.name w := by
  unfold literal at h
  simp only [Except.bind_eq_ok, Except.pure_eq_ok, representation_eq_ok] at h
  obtain ⟨source, hsource, c, hc, rfl⟩ := h
  have hv := hT.constant name t source v known hsource (checked source hsource)
  exact castBetween_belongs hT hc hv

/-- The evaluator of an operator takes as many operands as it has. -/
theorem length_arguments {name : String} {cs : List Expr} {ts : List MathType} {r : Resolution}
    {e : Evaluator} (hT : T.Closed) (length : cs.length = ts.length)
    (choice : T.env.resolveOperator name ts = .ok r)
    (he : r.overload.evaluator? T.options.mode = some e) : cs.length = e.arguments.length := by
  obtain ⟨hmem, hlen⟩ := Expr.choice_spec length choice
  have harguments := (hT.coherent.represented name _ hmem).arguments _ e he
  exact hlen.trans harguments.length_eq

/-- The concrete type of a compiled expression is named as the representation of its type. -/
theorem node_represents {e : Expr} {t : MathType} {x : Bound} {type : ConcreteType}
    (hT : T.Closed) (he : Expr.HasType T.env T.vars e t)
    (h : (node T.context e).run b = .ok ((x, type), b')) :
    Overload.Represents T.options.mode t type := by
  induction he generalizing b b' x type with
  | group child ih => exact ih (node_group_run h)
  | var known =>
    obtain ⟨target, i, represented, -, heq⟩ := node_var_run h
    cases heq
    exact ⟨_, represented, rfl⟩
  | const known belongs =>
    obtain ⟨target, w, represented, -, heq, -⟩ := node_const_run h
    cases heq
    exact ⟨_, represented, rfl⟩
  | op length operands choice ih =>
    obtain ⟨e, xs, c, i, hevaluator, -, -, heq⟩ := node_op_run h
    cases heq
    exact (hT.coherent.represented _ _ (Expr.choice_spec length choice).1).result _ e hevaluator

theorem nodes_valid {cs : List Expr} {targets : List ConcreteType} {xs : List Operand}
    (hT : T.Closed)
    (ih : ∀ c ∈ cs, ∀ b b' x type, T.Valid b → (node T.context c).run b = .ok ((x, type), b') →
      b.Extends b' ∧ T.Valid b' ∧ T.Keeps b' type.name x)
    (length : cs.length = targets.length) (wanted : ∀ c ∈ targets, T.Wanted c.name)
    (hb : T.Valid b) (h : (nodes T.context cs targets).run b = .ok (xs, b')) :
    b.Extends b' ∧ T.Valid b' ∧ List.Forall₂
      (fun x c => T.Holds b'.bindings b'.constants b'.bindings.size c.name x) xs targets := by
  induction cs generalizing targets xs b with
  | nil =>
    obtain rfl := List.eq_nil_of_length_eq_zero length.symm
    obtain ⟨rfl, rfl⟩ := nodes_nil_run h
    exact ⟨.refl _, hb, .nil⟩
  | cons c cs ih' =>
    obtain ⟨target, targets, rfl⟩ := List.exists_cons_of_length_eq_add_one length.symm
    obtain ⟨x, source, b₁, a, b₂, as, hnode, hoperand, hnodes, rfl⟩ := nodes_cons_run h
    rw [List.forall_mem_cons] at ih wanted
    obtain ⟨hext₁, hb₁, hx⟩ := ih.1 _ _ _ _ hb hnode
    obtain ⟨hext₂, hb₂, ha⟩ := operand_valid hT hb₁ hx wanted.1 hoperand
    obtain ⟨hext₃, hb₃, has⟩ := ih' ih.2 (Nat.succ.inj length) wanted.2 hb₂ hnodes
    -- the first operand is still in range when the others are compiled
    exact ⟨(hext₁.trans hext₂).trans hext₃, hb₃, .cons (ha.later hext₃) has⟩

/-- Compiling an expression that has a type keeps the program valid, and what it becomes holds
values of the concrete type that it is said to have. -/
theorem node_valid {e : Expr} {t : MathType} {x : Bound} {type : ConcreteType} (hT : T.Closed)
    (he : Expr.HasType T.env T.vars e t) (hc : T.Covers e) (hb : T.Valid b)
    (h : (node T.context e).run b = .ok ((x, type), b')) :
    b.Extends b' ∧ T.Valid b' ∧ T.Keeps b' type.name x := by
  induction he generalizing b b' x type with
  | @group c t child ih =>
    exact ih (hc.mono (Expr.nodes_subset_group (by simp))) hb (node_group_run h)
  | @var name t known =>
    obtain ⟨target, i, represented, hslot, heq⟩ := node_var_run h
    cases heq
    have used : T.uses name := hc.uses name ⟨.resolved t, by simp⟩
    obtain ⟨hext, hb', _, -, hbinding⟩ := variableSlot_valid hb used known represented hslot
    exact ⟨hext, hb', _, hbinding, rfl⟩
  | const known belongs =>
    obtain ⟨target, w, represented, hw, heq, rfl⟩ := node_const_run h
    cases heq
    exact ⟨.refl _, hb, literal_belongs hT known belongs hw⟩
  | @op name cs ts r length operands choice ih =>
    obtain ⟨e, xs, d, i, hevaluator, hnodes, hslot, heq⟩ := node_op_run h
    cases heq
    have called : T.calls e :=
      hc.calls e ⟨_, name, cs, r, Expr.self_mem_nodes _, hevaluator⟩
    have hchildren : ∀ c ∈ cs, ∀ b b' x type, T.Valid b →
        (node T.context c).run b = .ok ((x, type), b') →
        b.Extends b' ∧ T.Valid b' ∧ T.Keeps b' type.name x := by
      intro c hmem b b' x type hb h
      obtain ⟨u, hzip⟩ := Expr.exists_mem_zip length hmem
      exact ih c u hzip (hc.mono (Expr.nodes_subset_op hmem)) hb h
    have harity := length_arguments hT length choice hevaluator
    have hwanted : ∀ c ∈ e.arguments, T.Wanted c.name := fun c => .argument called
    obtain ⟨hext, hd, hxs⟩ := nodes_valid hT hchildren harity hwanted hb hnodes
    obtain ⟨hext', hb', step, -, hbinding⟩ := applicationSlot_valid hd called hxs hslot
    exact ⟨hext.trans hext', hb', _, hbinding, rfl⟩

/-! ### Programs -/

/-- A program whose steps are typed, and whose root holds values of its type. -/
structure OfProgram (p : Program) : Prop where
  bindings : ∀ i x, p.bindings[i]? = some x → T.Typed p.bindings p.constants i x
  root : T.Holds p.bindings p.constants p.bindings.size p.returnType.name p.root
  exported : p.exported = T.options.exported

/-- Compilation makes typed programs of expressions that have a type. -/
theorem program_typed {e : Expr} {t : MathType} {p : Program} (hT : T.Closed)
    (he : Expr.HasType T.env T.vars e t) (hc : T.Covers e)
    (h : program T.context e = .ok p) :
    T.OfProgram p ∧ Overload.Represents T.options.mode t p.returnType := by
  obtain ⟨x, b, root, b', hnode, hkeep, hbindings, hconstants, rfl, hexported⟩ := program_eq_ok h
  obtain ⟨-, hb, hx⟩ := node_valid hT he hc valid_empty hnode
  -- a root that is a constant is kept only now
  obtain ⟨-, hb', hroot⟩ := keep_valid hb hx hkeep
  rw [← hbindings, ← hconstants] at hroot
  refine ⟨⟨fun i y hy => ?_, hroot, hexported⟩, node_represents hT he hnode⟩
  rw [hbindings] at hy ⊢
  rw [hconstants]
  exact hb'.typed i y hy

end Typing

end Compile

end Formula
