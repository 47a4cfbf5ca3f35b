import Formula.Proofs.Program.Run
/-!
Sound runs. Where evaluators lead from values of their argument types to values of their result
type, and all variables are given values of their types, a typed program gives a value of its type,
leaves in every slot a value of the type of the slot, and hands to every evaluator what it takes.
-/

namespace Formula

/-- A binding is handed right: its step reads a variable as it is, or applies one of the evaluators
`calls` to values that fit its argument types, for a result of the type that is bound. -/
inductive Binding.Handed (calls : Evaluator → Prop) (fits : ConcreteType → Value → Prop)
    (inputs : Inputs) (slots : Array Value) : Binding → Prop
  | read {r type} (unconverted : r.conversion? = none) :
      Handed calls fits inputs slots { step := .read r, type }
  | apply {step e xs} (called : calls e) (applies : step.Applies e xs)
      (fit : List.Forall₂ (fun x c => fits c (x.fetch inputs slots)) xs e.arguments) :
      Handed calls fits inputs slots { step, type := e.result }

namespace Binding.Handed

variable {calls calls' : Evaluator → Prop} {fits fits' : ConcreteType → Value → Prop}
  {inputs : Inputs} {done slots : Array Value} {b : Binding}

theorem mono (h : b.Handed calls fits inputs slots) (hcalls : ∀ e, calls e → calls' e)
    (hfits : ∀ e, calls e → ∀ c ∈ e.arguments, ∀ v, fits c v → fits' c v) :
    b.Handed calls' fits' inputs slots := by
  cases h with
  | read unconverted => exact .read unconverted
  | @apply _ e xs called applies fit =>
    refine .apply (hcalls e called) applies (List.forall₂_iff_get.2 ⟨fit.length_eq, ?_⟩)
    intro i hi hj
    exact hfits e called _ (List.get_mem _ _) _ (fit.get hi hj)

/-- Slots behind those that are computed make no difference. -/
theorem grown (h : b.Handed calls fits inputs done)
    (hb : ∀ a ∈ b.step.operands, a.InRange done.size inputs.constants.size)
    (hgrown : done.toList <+: slots.toList) : b.Handed calls fits inputs slots := by
  cases h with
  | read unconverted => exact .read unconverted
  | @apply _ e xs called applies fit =>
    rw [applies.operands_eq] at hb
    refine .apply called applies (List.forall₂_iff_get.2 ⟨fit.length_eq, fun i hi hj => ?_⟩)
    rw [Operand.fetch_grown (hb _ (List.get_mem _ _)) hgrown]
    exact fit.get hi hj

end Binding.Handed

namespace Compile

namespace Typing

variable {T : Typing} {inputs : Inputs} {p : Program} {done : Array Value}

/-- What runs need to be sound: evaluators lead from values of their argument types to values of
their result type, and reading a variable gives a value of its type, which is never converted. -/
structure Sound (T : Typing) (inputs : Inputs) : Prop where
  call : ∀ e, T.calls e → ∀ vs, List.Forall₂ (fun v c => T.belongs c.name v) vs e.arguments →
    T.belongs e.result.name (e.call vs)
  unconverted : ∀ name t target conversion?, T.env.types.mathematical.get? name = some t →
    t.representation? T.options.mode = some target →
    variableConversion T.context t target = .ok conversion? → conversion? = none
  received : ∀ name t target, T.uses name →
    T.env.types.mathematical.get? (Expr.variableTypeName T.env T.vars name) = some t →
    t.representation? T.options.mode = some target →
    variableConversion T.context t target = .ok none →
    ∃ v, (readOf T.context name target none).value inputs #[] = .ok v ∧ T.belongs target.name v

/-- What runs need to come to values: evaluators lead from values of their argument types to values
of their result type, and reading a variable, converted or not, gives a value of its type. -/
structure Delivers (T : Typing) (inputs : Inputs) : Prop where
  call : ∀ e, T.calls e → ∀ vs, List.Forall₂ (fun v c => T.belongs c.name v) vs e.arguments →
    T.belongs e.result.name (e.call vs)
  received : ∀ name t target conversion?, T.uses name →
    T.env.types.mathematical.get? (Expr.variableTypeName T.env T.vars name) = some t →
    t.representation? T.options.mode = some target →
    variableConversion T.context t target = .ok conversion? →
    ∃ v, (readOf T.context name target conversion?).value inputs #[] = .ok v ∧
      T.belongs target.name v

theorem Sound.delivers (hS : T.Sound inputs) : T.Delivers inputs := by
  refine ⟨hS.call, fun name t target conversion? used known represented converted => ?_⟩
  obtain rfl := hS.unconverted _ t target conversion? known represented converted
  exact hS.received name t target used known represented converted

/-- The first slots hold values of the types that they are bound to. -/
def Filled (T : Typing) (bindings : Array Binding) (done : Array Value) : Prop :=
  ∀ i x, i < done.size → bindings[i]? = some x →
    ∃ v, done[i]? = some v ∧ T.belongs x.type.name v

/-! ### Steps -/

/-- What an operand holds is a value of its type. -/
theorem Holds.fetch_belongs {bindings : Array Binding} {constants : Array Value} {type : String}
    {a : Operand} (h : T.Holds bindings constants done.size type a)
    (hconst : inputs.constants = constants) (hdone : T.Filled bindings done) :
    T.belongs type (a.fetch inputs done) := by
  cases h with
  | @slot i x before found named =>
    obtain ⟨v, hv, hbelongs⟩ := hdone i x before found
    rw [named] at hbelongs
    have hfetch : (Operand.slot i).fetch inputs done = v := by simp [Operand.fetch, hv]
    rw [hfetch]
    exact hbelongs
  | @constant i v found belongs =>
    have hfetch : (Operand.constant i).fetch inputs done = v := by
      simp [Operand.fetch, hconst, found]
    rw [hfetch]
    exact belongs

/-- Where the slots before hold values of their types, a binding is handed right. -/
theorem Typed.handed {bindings : Array Binding} {constants : Array Value} {x : Binding}
    (hS : T.Sound inputs) (hx : T.Typed bindings constants done.size x)
    (hconst : inputs.constants = constants) (hdone : T.Filled bindings done) :
    x.Handed T.calls (fun c v => T.belongs c.name v) inputs done := by
  cases hx with
  | @read name t target conversion? used known represented converted =>
    exact .read (hS.unconverted _ t target conversion? known represented converted)
  | @apply step e xs called applies operands =>
    exact .apply called applies (operands.imp fun _ _ h => h.fetch_belongs hconst hdone)

/-- Where the slots before hold values of their types, a step gives a value of its type. -/
theorem Typed.value_belongs {bindings : Array Binding} {constants : Array Value} {x : Binding}
    (hS : T.Delivers inputs) (hx : T.Typed bindings constants done.size x)
    (hconst : inputs.constants = constants) (hdone : T.Filled bindings done) :
    ∃ v, x.step.value inputs done = .ok v ∧ T.belongs x.type.name v := by
  cases hx with
  | @read name t target conversion? used known represented converted =>
    exact hS.received name t target conversion? used known represented converted
  | @apply step e xs called applies operands =>
    refine ⟨_, applies.value_eq inputs done, hS.call e called _ ?_⟩
    rw [List.forall₂_map_left_iff]
    exact operands.imp fun _ _ h => h.fetch_belongs hconst hdone

theorem Filled.push {bindings : Array Binding} {x : Binding} {v : Value}
    (hdone : T.Filled bindings done) (hx : bindings[done.size]? = some x)
    (hv : T.belongs x.type.name v) : T.Filled bindings (done.push v) := by
  intro i y hi hy
  rw [Array.size_push] at hi
  by_cases heq : i = done.size
  · subst heq
    obtain rfl : x = y := Option.some.inj (hx.symm.trans hy)
    exact ⟨v, by simp, hv⟩
  · have hlt : i < done.size := by omega
    obtain ⟨w, hw, hbelongs⟩ := hdone i y hlt hy
    have hget : (done.push v)[i]? = done[i]? := by simp [Array.getElem?_push, heq]
    exact ⟨w, hget.trans hw, hbelongs⟩

/-! ### Runs -/

/-- The first steps of a typed program all give values of their types. -/
theorem OfProgram.compute_take (hS : T.Delivers inputs) (hp : T.OfProgram p)
    (hconst : inputs.constants = p.constants) {n : Nat} (hn : n ≤ p.bindings.size) :
    ∃ done, compute inputs (p.bindings.toList.take n) = .ok done ∧ done.size = n ∧
      T.Filled p.bindings done := by
  induction n with
  | zero => exact ⟨#[], rfl, rfl, fun i _ hi => absurd hi (Nat.not_lt_zero i)⟩
  | succ n ih =>
    obtain ⟨done, hcompute, rfl, hdone⟩ := ih (by omega)
    have hlt : done.size < p.bindings.size := by omega
    have hx : p.bindings[done.size]? = some p.bindings[done.size] := Array.getElem?_eq_getElem hlt
    obtain ⟨v, hv, hbelongs⟩ :=
      (hp.bindings done.size _ hx).value_belongs hS hconst hdone
    refine ⟨done.push v, ?_, Array.size_push v, hdone.push hx hbelongs⟩
    have htake : p.bindings.toList.take (done.size + 1)
        = p.bindings.toList.take done.size ++ [p.bindings[done.size]] := by
      rw [List.take_add_one, Array.getElem?_toList, hx]
      rfl
    rw [htake, compute_append, hcompute, Except.ok_bind, List.foldlM_cons,
      Binding.compute_eq_ok.2 ⟨v, hv, rfl⟩]
    rfl

variable {arguments : List Value} {scope : Scope}

/-- A typed program gives a value of its type, and leaves values of their types in all slots. -/
theorem OfProgram.run_sound (hT : T.Closed) (hp : T.OfProgram p)
    (hover : ∀ e, T.calls e → e.Overwrites) (hlen : arguments.length = p.exported.length)
    (hS : T.Delivers { arguments, scope, constants := p.constants }) (frame : Frame) :
    ∃ v done, p.run arguments scope frame = (.ok v, { slots := done }) ∧
      T.belongs p.returnType.name v ∧ done.size = p.bindings.size ∧ T.Filled p.bindings done := by
  obtain ⟨done, hcompute, hsize, hdone⟩ := hp.compute_take hS rfl (Nat.le_refl p.bindings.size)
  rw [List.take_of_length_le (Nat.le_of_eq Array.length_toList)] at hcompute
  rw [Program.run_eq (hp.sequential hT hover) hlen, hcompute]
  have hroot := hp.root
  rw [← hsize] at hroot
  exact ⟨_, done, rfl, hroot.fetch_belongs rfl hdone, hsize, hdone⟩

/-- A run of a compiled expression gives a value of the representation of its type, and leaves in
every slot a value of the type of the slot. -/
theorem evaluateIn_delivers {e : Expr} {t : MathType} {unit : CompiledUnit} (hT : T.Closed)
    (he : Expr.HasType T.env T.vars e t) (hc : T.Covers e)
    (hover : ∀ e, T.calls e → e.Overwrites) (compiled : T.env.compile T.options e = .ok unit)
    (length : arguments.length = T.options.exported.length)
    (hS : T.Delivers { arguments, scope, constants := unit.program.constants }) (frame : Frame) :
    (∃ c v, t.representation? T.options.mode = some c ∧
      (unit.evaluateIn arguments scope frame).1 = .ok v ∧ T.belongs c.name v) ∧
    (unit.evaluateIn arguments scope frame).2.slots.size = unit.program.bindings.size ∧
    ∀ (i : Nat) x, unit.program.bindings[i]? = some x → ∃ v,
      (unit.evaluateIn arguments scope frame).2.slots[i]? = some v ∧ T.belongs x.type.name v := by
  obtain ⟨hp, c, represented, hname⟩ :=
    program_typed hT he hc (Environment.compile_eq_ok compiled)
  have hlen : arguments.length = unit.program.exported.length := by
    rw [hp.exported]
    exact length
  obtain ⟨v, done, hrun, hv, hsize, hdone⟩ := hp.run_sound hT hover hlen hS frame
  have hevaluate : unit.evaluateIn arguments scope frame = (.ok v, { slots := done }) := hrun
  rw [hevaluate]
  refine ⟨⟨c, v, represented, rfl, hname ▸ hv⟩, hsize, fun i x hx => ?_⟩
  obtain ⟨hi, -⟩ := Array.getElem?_eq_some_iff.1 hx
  exact hdone i x (hsize ▸ hi) hx

/-- A binding of a typed program is handed right when a run comes to it. -/
theorem OfProgram.handed (hT : T.Closed) (hp : T.OfProgram p)
    (hover : ∀ e, T.calls e → e.Overwrites)
    (hS : T.Sound { arguments, scope, constants := p.constants }) (frame : Frame) {i : Nat}
    {x : Binding} (hx : p.bindings[i]? = some x) {slots : Array Value}
    (hrun : Program.runFrom { arguments, scope, constants := p.constants } 0 (p.startOf frame)
      (p.bindings.toList.take i) = (.ok (), slots)) :
    x.Handed T.calls (fun c v => T.belongs c.name v)
      { arguments, scope, constants := p.constants } slots := by
  obtain ⟨hi, -⟩ := Array.getElem?_eq_some_iff.1 hx
  obtain ⟨done, hcompute, rfl, hdone⟩ := hp.compute_take hS.delivers rfl (Nat.le_of_lt hi)
  have hsequential := (hp.sequential hT hover).take done.size
  have hstart : (p.bindings.toList.take done.size).length ≤ (p.startOf frame).size := by
    rw [p.size_startOf, List.length_take, Array.length_toList]
    exact Nat.min_le_right _ _
  rw [runFrom_start hsequential hstart, hcompute] at hrun
  have hgrown : done.toList <+: slots.toList := by
    cases hrun
    exact List.prefix_append _ _
  -- what the run left behind the computed slots is not looked at
  have hinrange : ∀ a ∈ x.step.operands, a.InRange done.size p.constants.size :=
    fun a ha => (hp.bindings _ x hx).inRange ha
  exact ((hp.bindings _ x hx).handed hS rfl hdone).grown hinrange hgrown

end Typing

/-! ### Conversions ahead -/

/-- Compilation hands a value to a conversion: a constant that is brought from the mode that it is
written in, or a constant operand that is brought to the type that the evaluator takes. -/
inductive Folds (ctx : Context) (e : Expr) : ConcreteCast → Value → Prop
  | constant {t v typeName text source target c}
      (occurs : .const (.resolved t) v typeName text ∈ Expr.nodes e)
      (written : t.representation? ctx.defaultMode = some source)
      (represented : t.representation? ctx.options.mode = some target)
      (cast : ctx.casts.concreteCast? source target = some (.convert c)) : Folds ctx e c v
  | operand {slot name cs r f child target b b' v source c}
      (occurs : .op slot name cs (some r) ∈ Expr.nodes e)
      (found : r.overload.evaluator? ctx.options.mode = some f)
      (taken : (child, target) ∈ cs.zip f.arguments)
      (compiled : (node ctx child).run b = .ok ((.literal v, source), b'))
      (cast : ctx.casts.concreteCast? source target = some (.convert c)) : Folds ctx e c v

namespace Typing

variable {T : Typing}

/-- What is kept back as a constant is a value of its type. -/
theorem literal_of_node {e : Expr} {t : MathType} {b b' : Build} {v : Value}
    {source : ConcreteType} (hT : T.Closed) (he : Expr.HasType T.env T.vars e t)
    (h : (node T.context e).run b = .ok ((.literal v, source), b')) :
    T.belongs source.name v := by
  induction he generalizing b b' v source with
  | group child ih => exact ih (node_group_run h)
  | var known =>
    obtain ⟨target, i, -, -, heq⟩ := node_var_run h
    cases heq
  | const known belongs =>
    obtain ⟨target, w, -, hw, heq, -⟩ := node_const_run h
    cases heq
    exact literal_belongs hT known belongs hw
  | op length operands choice ih =>
    obtain ⟨f, xs, d, i, -, -, -, heq⟩ := node_op_run h
    cases heq

/-- Conversions that are made ahead may be applied, and are handed values of their types. -/
theorem folds_sound {e : Expr} {t : MathType} {c : ConcreteCast} {v : Value} (hT : T.Closed)
    (he : Expr.HasType T.env T.vars e t) (hc : T.Covers e) (h : Folds T.context e c v) :
    T.calls c.evaluator ∧ T.belongs c.source.name v := by
  cases h with
  | @constant t v typeName text source target c occurs written represented cast =>
    obtain ⟨u, hu⟩ := he.of_mem_nodes occurs
    cases hu with
    | const known belongs =>
      have hfind := CastRegistry.concreteCast?_eq_convert cast
      have hv := hT.constant _ t source v known written (belongs source written)
      rw [← (hT.coherent.entered _ _ c hfind).1] at hv
      exact ⟨hT.calls _ _ c hfind (.variable known represented), hv⟩
  | @operand slot name cs r f child target b b' v source c occurs found taken compiled cast =>
    obtain ⟨u, hu⟩ := he.of_mem_nodes occurs
    cases hu with
    | op length operands choice =>
      obtain ⟨w, hzip⟩ := Expr.exists_mem_zip length (List.of_mem_zip taken).1
      have hfind := CastRegistry.concreteCast?_eq_convert cast
      have hv := literal_of_node hT (operands child w hzip) compiled
      rw [← (hT.coherent.entered _ _ c hfind).1] at hv
      have called : T.calls f := hc.calls f ⟨_, name, cs, r, occurs, found⟩
      exact ⟨hT.calls _ _ c hfind (.argument called (List.of_mem_zip taken).2), hv⟩

end Typing

end Compile

end Formula
