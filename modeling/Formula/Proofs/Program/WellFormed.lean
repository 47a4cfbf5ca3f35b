import Formula.Proofs.Program.Typing
/-!
Compiled programs are well-formed: what a step takes is there when the step is run, and is of the
type that it is taken as. The run that looks before every access therefore never stops short.
-/

namespace Formula

/-! ### A run that looks before it takes -/

/-- The value of an operand of the step `index`, if it is in range. -/
def Operand.fetch? (inputs : Inputs) (slots : Array Value) (index : Nat) : Operand → Option Value
  | slot i => if i < index then slots[i]? else none
  | constant i => inputs.constants[i]?

/-- What the place of the step `index` holds after the step, if all that it takes is in range and an
evaluator is given as many values as it takes. -/
def Step.run? (inputs : Inputs) (slots : Array Value) (index : Nat) :
    Step → Option (Except Error Value)
  | read r => do
    let place ← slots[index]?
    match r.position? with
    | some i => inputs.arguments[i]?.map fun _ => r.run inputs place
    | none => some (r.run inputs place)
  | convert _ c x => do
    let place ← slots[index]?
    let v ← x.fetch? inputs slots index
    some (.ok (c.applyInto v place))
  | binary op a b => do
    let _ ← slots[index]?
    let x ← a.fetch? inputs slots index
    let y ← b.fetch? inputs slots index
    some (.ok (op.apply x y))
  | unary op a => do
    let _ ← slots[index]?
    let x ← a.fetch? inputs slots index
    some (.ok (op.apply x))
  | call _ e xs => do
    let place ← slots[index]?
    let vs ← xs.mapM (·.fetch? inputs slots index)
    if vs.length = e.arity then some (.ok (e.callInto vs place)) else none

namespace Program

/-- Runs bindings from the slot `index` on, up to the first error, if all that they take is in
range. -/
def runFrom? (inputs : Inputs) (index : Nat) (slots : Array Value) :
    List Binding → Option (Except Error Unit × Array Value)
  | [] => some (.ok (), slots)
  | b :: bs =>
    match b.step.run? inputs slots index with
    | some (.ok v) => runFrom? inputs (index + 1) (slots.setIfInBounds index v) bs
    | some (.error e) => some (.error e, slots)
    | none => none

/-- Runs a program, if all that it takes is in range. -/
def run? (p : Program) (arguments : List Value) (scope : Scope) (frame : Frame) :
    Option (Except Error Value × Frame) :=
  if arguments.length ≠ p.exported.length then
    some (.error (.argumentCount p.exported.length arguments.length), frame)
  else
    let frame := if frame.slots.size = p.bindings.size then frame else p.newFrame
    let inputs : Inputs := { arguments, scope, constants := p.constants }
    match runFrom? inputs 0 frame.slots p.bindings.toList with
    | some (.ok (), slots) =>
      (p.root.fetch? inputs slots p.bindings.size).map fun v => (.ok v, { slots })
    | some (.error e, slots) => some (.error e, { slots })
    | none => none

end Program

/-! ### Well-formedness -/

/-- The operands of a step. -/
def Step.operands : Step → List Operand
  | read _ => []
  | convert _ _ x => [x]
  | binary _ a b => [a, b]
  | unary _ a => [a]
  | call _ _ xs => xs

/-- An operand is one of the first slots or of the constants. -/
def Operand.InRange (slots constants : Nat) : Operand → Prop
  | slot i => i < slots
  | constant i => i < constants

/-- A program whose steps take what is there, and apply evaluators `calls` to operands of the types
that these are declared with. -/
structure Program.WellFormed (p : Program) (calls : Evaluator → Prop) : Prop where
  operands : ∀ (i : Nat) x, p.bindings[i]? = some x →
    ∀ a ∈ x.step.operands, a.InRange i p.constants.size
  root : p.root.InRange p.bindings.size p.constants.size
  positions : ∀ (i : Nat) r type, p.bindings[i]? = some { step := .read r, type } →
    ∀ k, r.position? = some k → k < p.exported.length
  frame : p.newFrame.slots.size = p.bindings.size
  applied : ∀ (i : Nat) x, p.bindings[i]? = some x → (∃ r, x.step = .read r ∧ x.type = r.target) ∨
    ∃ e xs, calls e ∧ x.step.Applies e xs ∧ x.type = e.result ∧ xs.length = e.arity ∧
      ∀ (k j : Nat), xs[k]? = some (.slot j) → ∃ y c, p.bindings[j]? = some y ∧
        e.arguments[k]? = some c ∧ y.type.name = c.name

theorem Step.Applies.operands_eq {s : Step} {e : Evaluator} {xs : List Operand}
    (h : s.Applies e xs) : s.operands = xs := by
  cases h <;> rfl

/-! ### Runs of well-formed programs -/

variable {inputs : Inputs} {slots : Array Value} {index : Nat}

theorem Operand.fetch?_eq_some {a : Operand} (h : a.InRange index inputs.constants.size)
    (hi : index ≤ slots.size) : a.fetch? inputs slots index = some (a.fetch inputs slots) := by
  cases a with
  | slot i =>
    have hlt : i < index := h
    have hsize : i < slots.size := by omega
    simp [fetch?, fetch, hlt, hsize]
  | constant i =>
    have hlt : i < inputs.constants.size := h
    simp [fetch?, fetch, hlt]

theorem mapM_fetch?_eq_some {xs : List Operand}
    (h : ∀ a ∈ xs, a.InRange index inputs.constants.size) (hi : index ≤ slots.size) :
    xs.mapM (·.fetch? inputs slots index) = some (xs.map (·.fetch inputs slots)) := by
  induction xs with
  | nil => rfl
  | cons x xs ih =>
    rw [List.forall_mem_cons] at h
    rw [List.mapM_cons, Operand.fetch?_eq_some h.1 hi, ih h.2]
    rfl

/-- A step of which all is in range is run. -/
theorem Step.run?_eq_some {s : Step} (operands : ∀ a ∈ s.operands,
      a.InRange index inputs.constants.size) (hi : index < slots.size)
    (positions : ∀ r, s = .read r → ∀ k, r.position? = some k → k < inputs.arguments.length)
    (arity : ∀ f e xs, s = .call f e xs → xs.length = e.arity) :
    s.run? inputs slots index = some (s.run inputs slots (slots.getD index default)) := by
  have hplace : slots[index]? = some slots[index] := Array.getElem?_eq_getElem hi
  have hget : slots.getD index default = slots[index] := by simp [hi]
  have hle : index ≤ slots.size := by omega
  rw [hget]
  cases s with
  | read r =>
    cases hk : r.position? with
    | none => simp [run?, run, hplace, hk]
    | some k =>
      have hlt : k < inputs.arguments.length := positions r rfl k hk
      simp [run?, run, hplace, hk, hlt]
  | convert f c x =>
    have hx := Operand.fetch?_eq_some (operands x (by simp [Step.operands])) hle
    simp [run?, run, hplace, hx]
  | binary op a b =>
    have ha := Operand.fetch?_eq_some (operands a (by simp [Step.operands])) hle
    have hb := Operand.fetch?_eq_some (operands b (by simp [Step.operands])) hle
    simp [run?, run, hplace, ha, hb]
  | unary op a =>
    have ha := Operand.fetch?_eq_some (operands a (by simp [Step.operands])) hle
    simp [run?, run, hplace, ha]
  | call f e xs =>
    have hxs := mapM_fetch?_eq_some operands hle
    have hlen : xs.length = e.arity := arity f e xs rfl
    simp only [Step.operands] at hxs
    simp [run?, run, hplace, hxs, hlen]

namespace Program

theorem size_newFrame (p : Program) : p.newFrame.slots.size = p.bindings.size := by
  simp [newFrame]

theorem size_runFrom (bs : List Binding) :
    (runFrom inputs index slots bs).2.size = slots.size := by
  induction bs generalizing index slots with
  | nil => rfl
  | cons b bs ih =>
    rw [runFrom]
    split
    · rw [ih, Array.size_setIfInBounds]
    · rfl

theorem runFrom?_eq_some {p : Program} {calls : Evaluator → Prop} (hp : p.WellFormed calls)
    {bs : List Binding} (hbs : p.bindings.toList.drop index = bs)
    (hconstants : inputs.constants = p.constants)
    (harguments : inputs.arguments.length = p.exported.length)
    (hsize : slots.size = p.bindings.size) :
    runFrom? inputs index slots bs = some (runFrom inputs index slots bs) := by
  induction bs generalizing index slots with
  | nil => rfl
  | cons b bs ih =>
    have hlt : index < p.bindings.size := by
      have := congrArg List.length hbs
      rw [List.length_drop, Array.length_toList, List.length_cons] at this
      omega
    have hb : p.bindings[index]? = some b := by
      have := congrArg (·[0]?) hbs
      simpa using this
    have hdrop : p.bindings.toList.drop (index + 1) = bs := by
      rw [← List.drop_drop, hbs]
      rfl
    have hstep : b.step.run? inputs slots index
        = some (b.step.run inputs slots (slots.getD index default)) := by
      refine Step.run?_eq_some (hconstants ▸ hp.operands index b hb) (by omega) ?_ ?_
      · intro r hr k hk
        rw [harguments]
        exact hp.positions index r b.type (hr ▸ hb) k hk
      -- a call is no reading, and so applies the evaluator that it names
      · intro f e xs hcall
        rcases hp.applied index b hb with ⟨r, hr, -⟩ | ⟨e', xs', -, happlies, -, hlen, -⟩
        · rw [hcall] at hr
          cases hr
        · rw [hcall] at happlies
          cases happlies
          exact hlen
    rw [runFrom?, runFrom, hstep]
    cases b.step.run inputs slots (slots.getD index default) with
    | error e => rfl
    | ok v => exact ih hdrop (by rw [Array.size_setIfInBounds, hsize])

/-- A run of a well-formed program never takes what is not there. -/
theorem run?_eq_some {p : Program} {calls : Evaluator → Prop} (hp : p.WellFormed calls)
    (arguments : List Value) (scope : Scope) (frame : Frame) :
    p.run? arguments scope frame = some (p.run arguments scope frame) := by
  unfold run? run
  by_cases harguments : arguments.length ≠ p.exported.length
  · rw [if_pos harguments, if_pos harguments]
  · rw [if_neg harguments, if_neg harguments]
    dsimp only
    -- slots of another number are renewed first, so the run starts with as many as there are steps
    generalize hframe : (if frame.slots.size = p.bindings.size then frame else p.newFrame) = start
    have hsize : start.slots.size = p.bindings.size := by
      subst hframe
      split
      · assumption
      · exact size_newFrame p
    generalize hinputs : ({ arguments, scope, constants := p.constants } : Inputs) = inputs
    have hconstants : inputs.constants = p.constants := by rw [← hinputs]
    have hlength : inputs.arguments.length = p.exported.length := by
      rw [← hinputs]
      exact not_not.1 harguments
    rw [runFrom?_eq_some hp List.drop_zero hconstants hlength hsize]
    have hslots := @size_runFrom inputs start.slots 0 p.bindings.toList
    rcases hrun : runFrom inputs 0 start.slots p.bindings.toList with ⟨_ | _, slots⟩
    · rfl
    · rw [hrun] at hslots
      have hle : p.bindings.size ≤ slots.size := Nat.le_of_eq (hslots.trans hsize).symm
      simp only [Operand.fetch?_eq_some (hconstants ▸ hp.root) hle, Option.map_some]

end Program

/-! ### Compiled programs -/

/-- An evaluator makes a conversion that is known in an environment. -/
def Environment.Converts (env : Environment) (f : Evaluator) : Prop :=
  ∃ source target c, CastRegistry.find? env.casts.concrete source target = some c ∧
    c.evaluator = f

namespace Compile.Typing

variable {T : Typing}

theorem Holds.inRange {bindings : Array Binding} {constants : Array Value} {index : Nat}
    {type : String} {a : Operand} (h : T.Holds bindings constants index type a) :
    a.InRange index constants.size := by
  cases h with
  | slot before => exact before
  | constant found =>
    obtain ⟨hlt, -⟩ := Array.getElem?_eq_some_iff.1 found
    exact hlt

theorem Typed.inRange {bindings : Array Binding} {constants : Array Value} {index : Nat}
    {x : Binding} (h : T.Typed bindings constants index x) {a : Operand}
    (ha : a ∈ x.step.operands) : a.InRange index constants.size := by
  cases h with
  | read => simp [readOf, Step.operands] at ha
  | apply called applies operands =>
    rw [applies.operands_eq] at ha
    obtain ⟨k, hk, rfl⟩ := List.mem_iff_getElem.1 ha
    exact (operands.get hk (operands.length_eq ▸ hk)).inRange

theorem OfProgram.wellFormed {p : Program} (hp : T.OfProgram p) : p.WellFormed T.calls where
  operands i x hx a ha := (hp.bindings i x hx).inRange ha
  root := hp.root.inRange
  positions i r type hr k hk := by
    generalize hx : ({ step := .read r, type } : Binding) = x at hr
    cases hp.bindings i x hr with
    | read =>
      cases hx
      rw [hp.exported]
      exact (List.findIdx?_eq_some_iff_getElem.1 hk).1
    | apply called applies operands =>
      cases hx
      cases applies
  frame := p.size_newFrame
  applied i x hx := by
    cases hp.bindings i x hx with
    | read => exact .inl ⟨_, rfl, rfl⟩
    | @apply step e xs called applies operands =>
      refine .inr ⟨e, xs, called, applies, rfl, operands.length_eq, fun k j hk => ?_⟩
      obtain ⟨hlt, hget⟩ := List.getElem?_eq_some_iff.1 hk
      have hlt' : k < e.arguments.length := operands.length_eq ▸ hlt
      have hholds := operands.get hlt hlt'
      simp only [List.get_eq_getElem, hget] at hholds
      -- it is a slot, so its type is named by the argument that it is taken for
      cases hholds with
      | slot before found named =>
        exact ⟨_, e.arguments[k], found, List.getElem?_eq_getElem hlt', named⟩

end Compile.Typing

open Compile in
/-- A program compiled from an expression that resolves without errors is well-formed: its steps
take slots that are computed before, constants that are kept and positional arguments that are
passed, and apply the evaluators of its operators, and known conversions, to as many operands as
these are declared with, and of the types that they are declared with. Its value has the
representation of the type of the expression, and no run takes what is not there. -/
theorem Environment.compile_wellFormed {env : Environment} (reachable : env.Reachable)
    (vars : VariableTypes) {e : Expr} (resolved : (env.resolve vars e).2.hasErrors = false)
    {options : CompileOptions} {unit : CompiledUnit}
    (compiled : env.compile options (env.resolve vars e).1 = .ok unit) :
    unit.program.WellFormed
      (fun f => (env.resolve vars e).1.Calls options.mode f ∨ env.Converts f) ∧
    unit.program.exported = options.exported ∧
    (∃ t known, (env.resolve vars e).1.slot = .resolved t ∧
      t.representation? options.mode = some known ∧
      unit.program.returnType.name = known.name) ∧
    ∀ arguments scope frame,
      unit.program.run? arguments scope frame = some (unit.program.run arguments scope frame) := by
  let T : Typing := {
    env, vars, options
    belongs := fun _ _ => True
    uses := fun _ => True
    calls := fun f => (env.resolve vars e).1.Calls options.mode f ∨ env.Converts f }
  have hT : T.Closed := {
    coherent := reachable.coherent
    calls := fun source target c h _ => .inr ⟨source, target, c, h, rfl⟩
    constant := fun _ _ _ _ _ _ _ => trivial
    conversion := fun _ _ _ _ _ _ => trivial }
  have hcovers : T.Covers (env.resolve vars e).1 := ⟨fun _ _ => trivial, fun _ => .inl⟩
  obtain ⟨t, ht⟩ := Expr.hasType_resolve resolved
  obtain ⟨hp, known, hknown, hname⟩ :=
    Typing.program_typed hT ht hcovers (compile_eq_ok compiled)
  exact ⟨hp.wellFormed, hp.exported, ⟨t, known, ht.slot_eq, hknown, hname.symm⟩,
    Program.run?_eq_some hp.wellFormed⟩

/-! ### Sums of complex numbers -/

namespace Sums

/-- The expression `x + x + 2`. -/
def twicePlusTwo : Expr :=
  .op .pending "+" [.op .pending "+" [.var .pending "x", .var .pending "x"] none,
    .const .pending (.real 2) "real" none] none

theorem resolved_twicePlusTwo : (env.resolve .empty twicePlusTwo).2.hasErrors = false := by
  decide +kernel

/-- The variable is read and lifted once, and the constant is lifted ahead: four slots in all. -/
theorem wellFormed_twicePlusTwo :
    ∃ unit, env.compile {} (env.resolve .empty twicePlusTwo).1 = .ok unit ∧
      unit.program.bindings.size = 4 ∧
      unit.program.WellFormed (fun f =>
        (env.resolve .empty twicePlusTwo).1.Calls Mode.normal f ∨ env.Converts f) ∧
      ∀ frame, unit.program.run? [] .empty frame = some (unit.program.run [] .empty frame) := by
  have hsize : (env.compile {} (env.resolve .empty twicePlusTwo).1).toOption.map
      (·.program.bindings.size) = some 4 := by decide +kernel
  cases hunit : env.compile {} (env.resolve .empty twicePlusTwo).1 with
  | error e =>
    rw [hunit] at hsize
    cases hsize
  | ok unit =>
    rw [hunit] at hsize
    obtain ⟨hp, -, -, hrun⟩ :=
      Environment.compile_wellFormed reachable_env .empty resolved_twicePlusTwo hunit
    exact ⟨unit, rfl, Option.some.inj hsize, hp, fun frame => hrun [] .empty frame⟩

end Sums

end Formula
