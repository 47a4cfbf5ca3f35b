import Formula.Program.Direct
import Formula.Proofs.Program.WellFormed
/-!
Runs without places. Where no step depends on what its place held before, a run computes a list of
values, each from those before it, whatever the slots were left with.
-/

namespace Formula

/-- What an evaluator puts into a place is its result, whatever the place held. -/
def Evaluator.Overwrites (e : Evaluator) : Prop :=
  ∀ args place, args.length = e.arity → e.callInto args place = e.call args

/-- What is read for a variable. -/
def VariableRead.receive (r : VariableRead) (inputs : Inputs) : Except Error Value := do
  Direct.received r.isChecked r.conversion? r.target r.name (← r.value inputs)

namespace Step

/-- The value of a step, given the values of the slots before. -/
def value (inputs : Inputs) (done : Array Value) : Step → Except Error Value
  | read r => r.receive inputs
  | convert _ c x => .ok (c.apply (x.fetch inputs done))
  | binary op a b => .ok (op.apply (a.fetch inputs done) (b.fetch inputs done))
  | unary op a => .ok (op.apply (a.fetch inputs done))
  | call _ e xs => .ok (e.call (xs.map (·.fetch inputs done)))

/-- What a step leaves in its place is its value, whatever the place held. -/
def PlaceFree (s : Step) : Prop :=
  ∀ inputs slots place, s.run inputs slots place = s.value inputs slots

theorem Applies.value_eq {s : Step} {e : Evaluator} {xs : List Operand} (h : s.Applies e xs)
    (inputs : Inputs) (done : Array Value) :
    s.value inputs done = .ok (e.call (xs.map (·.fetch inputs done))) := by
  cases h with
  | convert | call => rfl
  | binary himpl | unary himpl => simp [value, Evaluator.call, himpl]

theorem Applies.placeFree {s : Step} {e : Evaluator} {xs : List Operand} (h : s.Applies e xs)
    (harity : xs.length = e.arity) (he : e.Overwrites) : s.PlaceFree := by
  intro inputs slots place
  cases h with
  | convert => exact congrArg Except.ok (he _ _ harity)
  | binary | unary => rfl
  | call => exact congrArg Except.ok (he _ _ (by rw [List.length_map, harity]))

theorem placeFree_read {r : VariableRead}
    (h : ∀ l, r.conversion? = some l → l.conversion.evaluator.Overwrites) :
    (read r).PlaceFree := by
  intro inputs slots place
  simp only [run, value, VariableRead.run, VariableRead.receive, VariableRead.conversionOf?]
  congr 1
  funext v
  -- only a conversion is given the place, and it overwrites it
  simp only [Direct.received]
  cases hl : r.conversion?.filter fun l => !r.target.accepts v && l.source.accepts v with
  | none => rfl
  | some l =>
    have hsome := (Option.filter_eq_some_iff.1 hl).1
    have harity : [v].length = l.conversion.evaluator.arity := by
      rw [Evaluator.arity, l.conversion.arguments_eq]
      rfl
    exact congrArg Except.ok (h l hsome [v] place harity)

end Step

/-! ### Values of bindings -/

/-- Adds the value of a binding. With an error come the values before it. -/
def Binding.compute (inputs : Inputs) (done : Array Value) (b : Binding) :
    Except (Error × Array Value) (Array Value) :=
  match b.step.value inputs done with
  | .ok v => .ok (done.push v)
  | .error e => .error (e, done)

/-- The values of bindings in turn, up to the first error. -/
def compute (inputs : Inputs) (bs : List Binding) : Except (Error × Array Value) (Array Value) :=
  bs.foldlM (Binding.compute inputs) #[]

theorem Operand.fetch_grown {inputs : Inputs} {done done' : Array Value} {a : Operand}
    (ha : a.InRange done.size inputs.constants.size) (h : done.toList <+: done'.toList) :
    a.fetch inputs done' = a.fetch inputs done := by
  cases a with
  | constant i => rfl
  | slot i =>
    have hi : i < done.size := ha
    have hget := Compile.Build.Extends.getElem?_grown h (Array.getElem?_eq_getElem hi)
    simp [fetch, hget, hi]

theorem Step.value_grown {inputs : Inputs} {done done' : Array Value} {s : Step}
    (hs : ∀ a ∈ s.operands, a.InRange done.size inputs.constants.size)
    (h : done.toList <+: done'.toList) : s.value inputs done' = s.value inputs done := by
  have hfetch : ∀ a ∈ s.operands, a.fetch inputs done' = a.fetch inputs done :=
    fun a ha => Operand.fetch_grown (hs a ha) h
  cases s with
  | read r => rfl
  | convert f c x => simp [value, hfetch x (by simp [operands])]
  | binary op a b => simp [value, hfetch a (by simp [operands]), hfetch b (by simp [operands])]
  | unary op a => simp [value, hfetch a (by simp [operands])]
  | call f e xs =>
    have hxs : xs.map (·.fetch inputs done') = xs.map (·.fetch inputs done) :=
      List.map_congr_left hfetch
    simp [value, hxs]

section Compute

variable {inputs : Inputs} {bs cs : List Binding} {done done' : Array Value}

theorem Binding.compute_eq_ok {b : Binding} : b.compute inputs done = .ok done' ↔
    ∃ v, b.step.value inputs done = .ok v ∧ done' = done.push v := by
  unfold compute
  cases b.step.value inputs done <;> simp [eq_comm]

theorem foldlM_compute_grown (h : bs.foldlM (Binding.compute inputs) done = .ok done') :
    done.toList <+: done'.toList ∧ done'.size = done.size + bs.length := by
  induction bs generalizing done with
  | nil =>
    rw [List.foldlM_nil, Except.pure_eq_ok] at h
    simp [h]
  | cons b bs ih =>
    rw [List.foldlM_cons, Except.bind_eq_ok] at h
    obtain ⟨mid, hmid, h⟩ := h
    obtain ⟨v, -, rfl⟩ := Binding.compute_eq_ok.1 hmid
    obtain ⟨hgrown, hsize⟩ := ih h
    constructor
    · exact (by simp : done.toList <+: (done.push v).toList).trans hgrown
    · rw [hsize, Array.size_push, List.length_cons]
      omega

theorem foldlM_compute_size_le {e : Error}
    (h : bs.foldlM (Binding.compute inputs) done = .error (e, done')) :
    done.size ≤ done'.size := by
  induction bs generalizing done with
  | nil => cases h
  | cons b bs ih =>
    rw [List.foldlM_cons] at h
    cases hv : b.step.value inputs done with
    | error e' =>
      simp only [Binding.compute, hv, bind, Except.bind] at h
      cases h
      exact Nat.le_refl _
    | ok v =>
      simp only [Binding.compute, hv, bind, Except.bind] at h
      have hle := ih h
      rw [Array.size_push] at hle
      omega

theorem compute_append : compute inputs (bs ++ cs) =
    compute inputs bs >>= fun done => cs.foldlM (Binding.compute inputs) done := by
  unfold compute
  rw [List.foldlM_append]

theorem size_of_compute (h : compute inputs bs = .ok done) : done.size = bs.length := by
  have hsize := (foldlM_compute_grown h).2
  simpa using hsize

/-- A slot holds the value of its step, given the values before. -/
theorem value_of_compute (h : compute inputs bs = .ok done) {i : Nat} {b : Binding}
    (hb : bs[i]? = some b) : ∃ before v, before.size = i ∧ before.toList <+: done.toList ∧
      b.step.value inputs before = .ok v ∧ done[i]? = some v := by
  obtain ⟨hi, rfl⟩ := List.getElem?_eq_some_iff.1 hb
  have hsplit : bs = bs.take i ++ bs[i] :: bs.drop (i + 1) := by
    rw [← List.drop_eq_getElem_cons hi, List.take_append_drop]
  -- the bindings before the slot, the one that it belongs to, and those behind
  rw [hsplit, compute_append, Except.bind_eq_ok] at h
  obtain ⟨before, hbefore, h⟩ := h
  rw [List.foldlM_cons, Except.bind_eq_ok] at h
  obtain ⟨mid, hmid, h⟩ := h
  obtain ⟨v, hv, rfl⟩ := Binding.compute_eq_ok.1 hmid
  have hsize : before.size = i := by
    rw [size_of_compute hbefore, List.length_take]
    omega
  have hgrown := (foldlM_compute_grown h).1
  refine ⟨before, v, hsize, ?_, hv, ?_⟩
  · exact (by simp : before.toList <+: (before.push v).toList).trans hgrown
  · exact Compile.Build.Extends.getElem?_grown hgrown (by simp [← hsize])

end Compute

/-! ### Runs -/

/-- Bindings from the slot `index` on whose steps take what is before them, and leave their value
whatever their place held. -/
def Sequential (constants : Nat) (index : Nat) (bs : List Binding) : Prop :=
  ∀ (k : Nat) b, bs[k]? = some b →
    b.step.PlaceFree ∧ ∀ a ∈ b.step.operands, a.InRange (index + k) constants

theorem Sequential.tail {constants index : Nat} {b : Binding} {bs : List Binding}
    (h : Sequential constants index (b :: bs)) : Sequential constants (index + 1) bs := by
  intro k c hc
  have := h (k + 1) c (by simpa using hc)
  rwa [show index + 1 + k = index + (k + 1) by omega]

theorem Sequential.take {constants index : Nat} {bs : List Binding}
    (h : Sequential constants index bs) (n : Nat) : Sequential constants index (bs.take n) := by
  intro k b hb
  rw [List.getElem?_take] at hb
  split at hb
  · exact h k b hb
  · cases hb

/-- A run computes values over whatever the slots held. The slots behind the last value computed
stay as they were. -/
theorem runFrom_eq {inputs : Inputs} {bs : List Binding} {done : Array Value} {rest : List Value}
    (hbs : Sequential inputs.constants.size done.size bs) (hrest : bs.length ≤ rest.length) :
    Program.runFrom inputs done.size ⟨done.toList ++ rest⟩ bs =
      match bs.foldlM (Binding.compute inputs) done with
      | .ok vs => (.ok (), ⟨vs.toList ++ rest.drop (vs.size - done.size)⟩)
      | .error (e, vs) => (.error e, ⟨vs.toList ++ rest.drop (vs.size - done.size)⟩) := by
  induction bs generalizing done rest with
  | nil => simp [Program.runFrom, pure, Except.pure]
  | cons b bs ih =>
    rw [List.length_cons] at hrest
    obtain ⟨old, rest, rfl⟩ := List.exists_cons_of_length_pos (by omega : 0 < rest.length)
    obtain ⟨hfree, hrange⟩ := hbs 0 b rfl
    -- the slots that are not computed yet are out of range of the operands
    have hstep : ∀ place, b.step.run inputs ⟨done.toList ++ old :: rest⟩ place
        = b.step.value inputs done := by
      intro place
      rw [hfree]
      exact Step.value_grown hrange (List.prefix_append _ _)
    rw [Program.runFrom, hstep, List.foldlM_cons]
    cases hv : b.step.value inputs done with
    | error e => simp [Binding.compute, hv, bind, Except.bind]
    | ok v =>
      have hset : (⟨done.toList ++ old :: rest⟩ : Array Value).setIfInBounds done.size v
          = ⟨(done.push v).toList ++ rest⟩ := by
        apply Array.ext'
        simp
      have hpush : done.size + 1 = (done.push v).size := by rw [Array.size_push]
      have htail := hbs.tail
      rw [hpush] at htail
      -- one slot more is computed, and one less is left as it was
      have hdrop : ∀ vs : Array Value, (done.push v).size ≤ vs.size →
          (old :: rest).drop (vs.size - done.size) = rest.drop (vs.size - (done.push v).size) := by
        intro vs hle
        rw [← hpush] at hle ⊢
        rw [show vs.size - done.size = vs.size - (done.size + 1) + 1 by omega]
        rfl
      simp only [Binding.compute, hv, bind, Except.bind, hset, hpush]
      rw [ih htail (by simpa using hrest)]
      cases hfold : bs.foldlM (Binding.compute inputs) (done.push v) with
      | ok vs =>
        have hsize := (foldlM_compute_grown hfold).2
        simp only [hdrop vs (by omega)]
      | error p =>
        simp only [hdrop p.2 (foldlM_compute_size_le hfold)]

theorem runFrom_start {inputs : Inputs} {bs : List Binding} {slots : Array Value}
    (hbs : Sequential inputs.constants.size 0 bs) (hslots : bs.length ≤ slots.size) :
    Program.runFrom inputs 0 slots bs = match compute inputs bs with
      | .ok vs => (.ok (), ⟨vs.toList ++ slots.toList.drop vs.size⟩)
      | .error (e, vs) => (.error e, ⟨vs.toList ++ slots.toList.drop vs.size⟩) :=
  @runFrom_eq inputs bs #[] slots.toList hbs hslots

namespace Program

/-- The slots that a run on a frame starts with. -/
def startOf (p : Program) (frame : Frame) : Array Value :=
  if frame.slots.size = p.bindings.size then frame.slots else p.newFrame.slots

theorem size_startOf (p : Program) (frame : Frame) : (p.startOf frame).size = p.bindings.size := by
  unfold startOf
  split
  · assumption
  · exact p.size_newFrame

/-- What a run on any frame gives is computed from the inputs, and so are the slots that it
leaves, up to the first error. -/
theorem run_eq {p : Program} {arguments : List Value} {scope : Scope}
    (hp : Sequential p.constants.size 0 p.bindings.toList)
    (h : arguments.length = p.exported.length) (frame : Frame) :
    p.run arguments scope frame =
      match compute { arguments, scope, constants := p.constants } p.bindings.toList with
      | .ok done =>
        (.ok (p.root.fetch { arguments, scope, constants := p.constants } done), { slots := done })
      | .error (e, done) =>
        (.error e, { slots := ⟨done.toList ++ (p.startOf frame).toList.drop done.size⟩ }) := by
  have hstart : (if frame.slots.size = p.bindings.size then frame else p.newFrame).slots
      = p.startOf frame := by
    unfold startOf
    split <;> rfl
  have hsize : (p.startOf frame).size = p.bindings.toList.length := p.size_startOf frame
  unfold run
  rw [if_neg (not_not.2 h)]
  dsimp only
  rw [hstart, runFrom_start hp (Nat.le_of_eq hsize.symm)]
  cases hdone : compute { arguments, scope, constants := p.constants } p.bindings.toList with
  | error q => rfl
  | ok done =>
    have hle : (p.startOf frame).toList.length ≤ done.size :=
      Nat.le_of_eq (hsize.trans (size_of_compute hdone).symm)
    have hdrop := List.drop_eq_nil_of_le hle
    simp only [hdrop, List.append_nil]

end Program

namespace Compile.Typing

variable {T : Typing}

theorem calls_of_variableConversion (hT : T.Closed) {t : MathType} {target : ConcreteType}
    {l : Lift} (wanted : T.Wanted target.name)
    (h : variableConversion T.context t target = .ok (some l)) :
    T.calls l.conversion.evaluator := by
  unfold variableConversion at h
  split at h
  · simp only [Except.bind_eq_ok, Except.pure_eq_ok, castBetween_eq_ok] at h
    obtain ⟨source, -, cast, hcast, hl⟩ := h
    cases cast with
    | identity => cases hl
    | convert c =>
      cases hl
      exact hT.calls _ _ c (CastRegistry.concreteCast?_eq_convert hcast) wanted
  · cases h

/-- Where evaluators overwrite, so do the steps of typed programs. -/
theorem OfProgram.sequential {p : Program} (hT : T.Closed) (hp : T.OfProgram p)
    (hover : ∀ e, T.calls e → e.Overwrites) :
    Sequential p.constants.size 0 p.bindings.toList := by
  intro k b hb
  rw [Array.getElem?_toList] at hb
  rw [Nat.zero_add]
  refine ⟨?_, hp.wellFormed.operands k b hb⟩
  cases hp.bindings k b hb with
  | read used known represented converted =>
    refine Step.placeFree_read fun l hl => hover _ ?_
    have hconverted := converted.trans (congrArg Except.ok hl)
    exact calls_of_variableConversion hT (.variable known represented) hconverted
  | apply called applies operands => exact applies.placeFree operands.length_eq (hover _ called)

end Compile.Typing

end Formula
