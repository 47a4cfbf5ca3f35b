import Formula.Proofs.Program.Correctness
/-!
What a run leaves in a frame. A run that fails stops at one step; where no step depends on what its
place held before, it is the same step on every frame, and the slots before it are computed from the
inputs alone. The last section shows this of compiled programs whose evaluators overwrite.
-/

namespace Formula

namespace Program

/-! ### Where a run stops -/

section Stop

variable {inputs : Inputs} {b : Binding} {bs : List Binding} {slots left : Array Value}
  {index : Nat} {v : Value} {err : Error}

theorem runFrom_cons_ok (h : b.step.run inputs slots (slots.getD index default) = .ok v) :
    runFrom inputs index slots (b :: bs) =
      runFrom inputs (index + 1) (slots.setIfInBounds index v) bs := by
  rw [runFrom, h]

theorem runFrom_cons_error (h : b.step.run inputs slots (slots.getD index default) = .error err) :
    runFrom inputs index slots (b :: bs) = (.error err, slots) := by
  rw [runFrom, h]

/-- A run of bindings fails at one of them: those before it succeed, and it fails on the slots that
they leave. -/
theorem runFrom_eq_error : runFrom inputs index slots bs = (.error err, left) ↔
    ∃ k b, bs[k]? = some b ∧ runFrom inputs index slots (bs.take k) = (.ok (), left) ∧
      b.step.run inputs left (left.getD (index + k) default) = .error err := by
  induction bs generalizing index slots with
  | nil => simp [runFrom]
  | cons b bs ih =>
    cases hstep : b.step.run inputs slots (slots.getD index default) with
    | error e =>
      rw [runFrom_cons_error hstep]
      constructor
      · rintro ⟨⟩
        exact ⟨0, b, rfl, rfl, hstep⟩
      · rintro ⟨k, b', hb, hbefore, herr⟩
        -- the first binding fails, so none is run behind it
        cases k with
        | zero =>
          cases hb
          cases hbefore
          cases hstep.symm.trans herr
          rfl
        | succ k =>
          rw [List.take_succ_cons, runFrom_cons_error hstep] at hbefore
          cases hbefore
    | ok v =>
      rw [runFrom_cons_ok hstep, ih]
      constructor
      · rintro ⟨k, b', hb, hbefore, herr⟩
        rw [← runFrom_cons_ok hstep, ← List.take_succ_cons] at hbefore
        rw [show index + 1 + k = index + (k + 1) by omega] at herr
        exact ⟨k + 1, b', hb, hbefore, herr⟩
      · rintro ⟨k, b', hb, hbefore, herr⟩
        cases k with
        | zero =>
          cases hb
          cases hbefore
          cases hstep.symm.trans herr
        | succ k =>
          rw [List.take_succ_cons, runFrom_cons_ok hstep] at hbefore
          rw [show index + (k + 1) = index + 1 + k by omega] at herr
          exact ⟨k, b', hb, hbefore, herr⟩

end Stop

variable {p : Program} {arguments : List Value} {scope : Scope} {frame : Frame} {k : Nat}
  {err : Error}

/-- A run on a frame stops with an error at the step `k`: the steps before it succeed, and it fails
on the slots that they leave. -/
def StopsAt (p : Program) (arguments : List Value) (scope : Scope) (frame : Frame) (k : Nat)
    (err : Error) : Prop :=
  ∃ b left, p.bindings[k]? = some b ∧
    runFrom { arguments, scope, constants := p.constants } 0 (p.startOf frame)
      (p.bindings.toList.take k) = (.ok (), left) ∧
    b.step.run { arguments, scope, constants := p.constants } left (left.getD k default) =
      .error err

/-- A run that is given as many arguments as it takes fails exactly if it stops at a step. -/
theorem run_eq_error (length : arguments.length = p.exported.length) :
    (p.run arguments scope frame).1 = .error err ↔
      ∃ k, p.StopsAt arguments scope frame k err := by
  have hstart : (if frame.slots.size = p.bindings.size then frame else p.newFrame).slots
      = p.startOf frame := by
    unfold startOf
    split <;> rfl
  unfold run StopsAt
  rw [if_neg (not_not.2 length)]
  dsimp only
  rw [hstart]
  generalize hinputs : ({ arguments, scope, constants := p.constants } : Inputs) = inputs
  have hfails : ∀ left, runFrom inputs 0 (p.startOf frame) p.bindings.toList = (.error err, left) ↔
      ∃ k b, p.bindings[k]? = some b ∧
        runFrom inputs 0 (p.startOf frame) (p.bindings.toList.take k) = (.ok (), left) ∧
        b.step.run inputs left (left.getD k default) = .error err := by
    intro left
    simp only [runFrom_eq_error, Array.getElem?_toList, Nat.zero_add]
  constructor
  · intro h
    rcases hrun : runFrom inputs 0 (p.startOf frame) p.bindings.toList with ⟨_ | _, left⟩
    · rw [hrun] at h
      cases h
      obtain ⟨k, b, hstop⟩ := (hfails left).1 hrun
      exact ⟨k, b, left, hstop⟩
    · rw [hrun] at h
      cases h
  · rintro ⟨k, b, left, hstop⟩
    rw [(hfails left).2 ⟨k, b, hstop⟩]

/-! ### Runs that do not look at their frame -/

theorem compute_stops {inputs : Inputs} {bs : List Binding} {b : Binding} {done : Array Value}
    (hb : bs[k]? = some b) (hbefore : compute inputs (bs.take k) = .ok done)
    (herr : b.step.value inputs done = .error err) : compute inputs bs = .error (err, done) := by
  obtain ⟨hk, rfl⟩ := List.getElem?_eq_some_iff.1 hb
  rw [← List.take_append_drop k bs, compute_append, hbefore, Except.ok_bind,
    List.drop_eq_getElem_cons hk, List.foldlM_cons]
  simp only [Binding.compute, herr, Except.error_bind]

section Sequential

variable (hp : Sequential p.constants.size 0 p.bindings.toList)

include hp

/-- Where no step depends on its place, the step at which a run stops is decided by the inputs. -/
theorem stopsAt_iff : p.StopsAt arguments scope frame k err ↔
    ∃ b done, p.bindings[k]? = some b ∧
      compute { arguments, scope, constants := p.constants } (p.bindings.toList.take k) =
        .ok done ∧
      b.step.value { arguments, scope, constants := p.constants } done = .error err := by
  unfold StopsAt
  generalize hinputs : ({ arguments, scope, constants := p.constants } : Inputs) = inputs
  have hconst : inputs.constants.size = p.constants.size := by rw [← hinputs]
  have hbefore : Sequential inputs.constants.size 0 (p.bindings.toList.take k) := by
    rw [hconst]
    exact hp.take k
  have hroom : (p.bindings.toList.take k).length ≤ (p.startOf frame).size := by
    rw [p.size_startOf, List.length_take, Array.length_toList]
    exact Nat.min_le_right _ _
  rw [runFrom_start hbefore hroom]
  -- the slots behind those that are computed are out of range of the step
  have hstep : ∀ (b : Binding) (done rest : List Value) place, p.bindings[k]? = some b →
      done.length = k → b.step.run inputs ⟨done ++ rest⟩ place = b.step.value inputs ⟨done⟩ := by
    intro b done rest place hb hlen
    obtain ⟨hfree, hrange⟩ := hp k b (by rwa [Array.getElem?_toList])
    rw [hfree]
    refine Step.value_grown (fun a ha => ?_) (List.prefix_append _ _)
    have h := hrange a ha
    rw [Nat.zero_add, ← hconst, ← hlen] at h
    exact h
  have hsize : ∀ b done, p.bindings[k]? = some b →
      compute inputs (p.bindings.toList.take k) = .ok done → done.toList.length = k := by
    intro b done hb hdone
    have hk := (Array.getElem?_eq_some_iff.1 hb).1
    rw [Array.length_toList, size_of_compute hdone, List.length_take, Array.length_toList]
    omega
  constructor
  · rintro ⟨b, left, hb, hrun, herr⟩
    cases hdone : compute inputs (p.bindings.toList.take k) with
    | error q =>
      rw [hdone] at hrun
      cases hrun
    | ok done =>
      rw [hdone] at hrun
      cases hrun
      rw [hstep b done.toList _ _ hb (hsize b done hb hdone)] at herr
      exact ⟨b, done, hb, rfl, herr⟩
  · rintro ⟨b, done, hb, hdone, herr⟩
    rw [hdone]
    refine ⟨b, _, hb, rfl, ?_⟩
    rw [hstep b done.toList _ _ hb (hsize b done hb hdone)]
    exact herr

/-- What a run gives does not depend on the frame. -/
theorem run_fst_eq (length : arguments.length = p.exported.length) (frame frame' : Frame) :
    (p.run arguments scope frame).1 = (p.run arguments scope frame').1 := by
  rw [run_eq hp length frame, run_eq hp length frame']
  cases compute { arguments, scope, constants := p.constants } p.bindings.toList <;> rfl

/-- A run that succeeds leaves the same slots in every frame. -/
theorem run_snd_eq (length : arguments.length = p.exported.length) {v : Value}
    (hv : (p.run arguments scope frame).1 = .ok v) (frame' : Frame) :
    (p.run arguments scope frame).2 = (p.run arguments scope frame').2 := by
  rw [run_eq hp length frame] at hv ⊢
  rw [run_eq hp length frame']
  cases hdone : compute { arguments, scope, constants := p.constants } p.bindings.toList with
  | ok done => rfl
  | error q =>
    rw [hdone] at hv
    cases hv

/-- A run that stops at a step leaves there and behind what the slots held before, and in the slots
before it what is computed on any other frame. -/
theorem getElem?_of_stopsAt (length : arguments.length = p.exported.length)
    (stops : p.StopsAt arguments scope frame k err) (frame' : Frame) (i : Nat) :
    (p.run arguments scope frame).2.slots[i]? =
      if i < k then (p.run arguments scope frame').2.slots[i]? else (p.startOf frame)[i]? := by
  obtain ⟨b, done, hb, hbefore, herr⟩ := (stopsAt_iff hp).1 stops
  have hk := (Array.getElem?_eq_some_iff.1 hb).1
  have hsize : done.toList.length = k := by
    rw [Array.length_toList, size_of_compute hbefore, List.length_take, Array.length_toList]
    omega
  have hdone := compute_stops (by rwa [Array.getElem?_toList]) hbefore herr
  have hslots : ∀ frame : Frame, (p.run arguments scope frame).2.slots =
      ⟨done.toList ++ (p.startOf frame).toList.drop k⟩ := by
    intro frame
    rw [run_eq hp length frame, hdone, ← hsize, Array.length_toList]
  rw [hslots frame, hslots frame']
  simp only [List.getElem?_toArray, List.getElem?_append, hsize, List.getElem?_drop]
  split
  · rfl
  · rw [show k + (i - k) = i by omega, Array.getElem?_toList]

end Sequential

end Program

/-! ### Compiled programs -/

namespace Environment

open Compile (Typing)

variable {env : Environment} {vars : VariableTypes} {options : CompileOptions} {e : Expr}
  {t : MathType} {unit : CompiledUnit}

/-- What programs are typed against where all that matters is that their evaluators are offered. -/
def offering (env : Environment) (vars : VariableTypes) (options : CompileOptions) : Typing where
  env
  vars
  options
  belongs _ _ := True
  uses _ := True
  calls := env.Offers options.mode

theorem closed_offering (coherent : env.Coherent) : (env.offering vars options).Closed where
  coherent
  calls source target c h _ := .conversion ⟨source, target, c, h, rfl⟩
  constant _ _ _ _ _ _ _ := trivial
  conversion _ _ _ _ _ _ := trivial

theorem covers_offering (he : e.HasType env vars t) : (env.offering vars options).Covers e :=
  ⟨fun _ _ => trivial, fun _ => offers_of_calls he⟩

section Compiled

variable (coherent : env.Coherent) (he : e.HasType env vars t)
  (compiled : env.compile options e = .ok unit)

include coherent he compiled

theorem ofProgram_offering : (env.offering vars options).OfProgram unit.program :=
  (Typing.program_typed (closed_offering coherent) he (covers_offering he)
    (compile_eq_ok compiled)).1

/-- Arguments of another number than the names of positional arguments are refused, and the frame is
left alone. -/
theorem evaluateIn_eq_argumentCount {arguments : List Value}
    (length : arguments.length ≠ options.exported.length) (scope : Scope) (frame : Frame) :
    unit.evaluateIn arguments scope frame =
      (.error (.argumentCount options.exported.length arguments.length), frame) := by
  have hexported : unit.program.exported = options.exported :=
    (ofProgram_offering coherent he compiled).exported
  have hlength : arguments.length ≠ unit.program.exported.length := hexported ▸ length
  rw [CompiledUnit.evaluateIn, Program.run, if_pos hlength, hexported]

variable (overwrites : ∀ f, env.Offers options.mode f → f.Overwrites)

include overwrites

/-- No step of a compiled program depends on its place, if the evaluators that are offered do
not. -/
theorem sequential_of_compile :
    Sequential unit.program.constants.size 0 unit.program.bindings.toList :=
  (ofProgram_offering coherent he compiled).sequential (closed_offering coherent) overwrites

/-- A compiled program gives on any frame what direct evaluation gives. -/
theorem evaluateIn_eq_direct {arguments : List Value}
    (length : arguments.length = options.exported.length) (scope : Scope) (frame : Frame) :
    (unit.evaluateIn arguments scope frame).1 = env.evaluate options e arguments scope := by
  have hexported := (ofProgram_offering coherent he compiled).exported
  have hlength : arguments.length = unit.program.exported.length := hexported ▸ length
  let inputs : Inputs := { arguments, scope, constants := unit.program.constants }
  have hagree := @Typing.program_agrees _ inputs _ _ _ (closed_offering coherent) he
    (covers_offering he) (compile_eq_ok compiled) rfl length
  have hsequential := sequential_of_compile coherent he compiled overwrites
  rw [CompiledUnit.evaluateIn, Program.run_eq hsequential hlength]
  change _ = Except.map Prod.fst
    (Direct.node (env.offering vars options).context ((env.offering vars options).assignment inputs)
      e)
  cases hdone : compute inputs unit.program.bindings.toList with
  | ok done =>
    rw [hdone] at hagree
    rw [hagree]
    rfl
  | error q =>
    rw [hdone] at hagree
    rw [hagree]
    rfl

/-- Programs for the same positional arguments give the same on all frames, if direct evaluation
does. -/
theorem evaluateIn_eq_of_evaluate {vars' : VariableTypes} {e' : Expr} {t' : MathType}
    {unit' : CompiledUnit} (he' : e'.HasType env vars' t')
    (compiled' : env.compile options e' = .ok unit') {arguments : List Value} {scope scope' : Scope}
    (h : env.evaluate options e arguments scope = env.evaluate options e' arguments scope')
    (frame frame' : Frame) :
    (unit.evaluateIn arguments scope frame).1 = (unit'.evaluateIn arguments scope' frame').1 := by
  by_cases length : arguments.length = options.exported.length
  · rw [evaluateIn_eq_direct coherent he compiled overwrites length,
      evaluateIn_eq_direct coherent he' compiled' overwrites length, h]
  · rw [evaluateIn_eq_argumentCount coherent he compiled length,
      evaluateIn_eq_argumentCount coherent he' compiled' length]

end Compiled

end Environment

end Formula
