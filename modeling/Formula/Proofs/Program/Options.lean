import Formula.Proofs.Program.Rereading
/-!
Options are conservative. Checking variables can only make a run fail, where a value is not of its
type, and converting them makes no difference to values that are.
-/

namespace Formula

/-! ### Readings -/

namespace VariableRead

variable {r : VariableRead} {inputs : Inputs} {place v : Value}

/-- A reading without a check. -/
def unchecked (r : VariableRead) : VariableRead :=
  { r with isChecked := false }

/-- A reading without a conversion. -/
def unconverted (r : VariableRead) : VariableRead :=
  { r with conversion? := none }

theorem run_of_error {err : Error} (h : r.value inputs = .error err) :
    r.run inputs place = .error err := by
  rw [run, h]
  rfl

theorem run_of_lifted {l : Lift} (h : r.value inputs = .ok v) (hl : r.conversionOf? v = some l) :
    r.run inputs place = .ok (l.conversion.applyInto v place) := by
  rw [run, h, Except.ok_bind, hl]
  rfl

theorem run_of_kept (h : r.value inputs = .ok v) (hl : r.conversionOf? v = none) :
    r.run inputs place =
      match if r.isChecked then r.target.complaint v else none with
      | some complaint => .error (.wrongType r.name complaint)
      | none => .ok v := by
  rw [run, h, Except.ok_bind, hl]
  rfl

/-- A check makes no difference to a value that is not complained of. -/
theorem run_unchecked_of_complaint
    (h : ∀ v, r.value inputs = .ok v → r.target.complaint v = none) :
    r.run inputs place = r.unchecked.run inputs place := by
  have hvalue : r.unchecked.value inputs = r.value inputs := rfl
  cases hv : r.value inputs with
  | error err => rw [run_of_error hv, run_of_error (hvalue.trans hv)]
  | ok v =>
    have hconversion : r.unchecked.conversionOf? v = r.conversionOf? v := rfl
    cases hl : r.conversionOf? v with
    | some l => rw [run_of_lifted hv hl, run_of_lifted (hvalue.trans hv) (hconversion.trans hl)]
    | none =>
      rw [run_of_kept hv hl, run_of_kept (hvalue.trans hv) (hconversion.trans hl), h v hv]
      simp [unchecked]

/-- A check makes no difference unless the value is refused. -/
theorem run_unchecked : r.run inputs place = r.unchecked.run inputs place ∨
    ∃ name reason, r.run inputs place = .error (.wrongType name reason) := by
  by_cases h : ∀ v, r.value inputs = .ok v → r.target.complaint v = none
  · exact .inl (run_unchecked_of_complaint h)
  · simp only [not_forall] at h
    obtain ⟨v, hv, hcomplaint⟩ := h
    obtain ⟨reason, hreason⟩ := Option.ne_none_iff_exists'.1 hcomplaint
    have hvalue : r.unchecked.value inputs = .ok v := hv
    have hconversion : r.unchecked.conversionOf? v = r.conversionOf? v := rfl
    cases hl : r.conversionOf? v with
    | some l =>
      exact .inl (by rw [run_of_lifted hv hl, run_of_lifted hvalue (hconversion.trans hl)])
    | none =>
      rw [run_of_kept hv hl, run_of_kept hvalue (hconversion.trans hl), hreason]
      by_cases hchecked : r.isChecked = true
      · rw [if_pos hchecked]
        exact .inr ⟨r.name, reason, rfl⟩
      · rw [if_neg hchecked]
        exact .inl (by simp [unchecked])

/-- A conversion makes no difference to a value of the type. -/
theorem run_unconverted (h : ∀ v, r.value inputs = .ok v → r.target.accepts v = true) :
    r.run inputs place = r.unconverted.run inputs place := by
  have hvalue : r.unconverted.value inputs = r.value inputs := rfl
  cases hv : r.value inputs with
  | error err => rw [run_of_error hv, run_of_error (hvalue.trans hv)]
  | ok v =>
    have hkept : r.conversionOf? v = none := by
      simp [conversionOf?, h v hv]
    rw [run_of_kept hv hkept, run_of_kept (hvalue.trans hv) rfl]
    rfl

end VariableRead

/-! ### Runs that may be refused -/

theorem Binding.refuses_mapRead (inputs : Inputs) (bs : List Binding) :
    List.Forall₂ (fun b b' => ∀ slots place,
      b.step.run inputs slots place = b'.step.run inputs slots place ∨
        ∃ name reason, b.step.run inputs slots place = .error (.wrongType name reason))
      bs (bs.map (mapRead VariableRead.unchecked)) := by
  rw [List.forall₂_map_right_iff, List.forall₂_same]
  intro b _ slots place
  cases hread : b.step.read? with
  | none =>
    rw [mapRead, Step.mapRead_of_none hread]
    exact .inl rfl
  | some r =>
    rw [mapRead, Step.read?_eq_some.1 hread]
    exact VariableRead.run_unchecked

namespace Program

/-- A run that does what another does, unless it refuses a value, gives what the other gives, unless
it refuses a value. -/
theorem runFrom_or_refused {inputs : Inputs} {bs bs' : List Binding} {index : Nat}
    {slots : Array Value}
    (h : List.Forall₂ (fun b b' => ∀ slots place,
      b.step.run inputs slots place = b'.step.run inputs slots place ∨
        ∃ name reason, b.step.run inputs slots place = .error (.wrongType name reason)) bs bs') :
    runFrom inputs index slots bs = runFrom inputs index slots bs' ∨
      ∃ name reason, (runFrom inputs index slots bs).1 = .error (.wrongType name reason) := by
  induction h generalizing index slots with
  | nil => exact .inl rfl
  | @cons b b' bs bs' hb _ ih =>
    rcases hb slots (slots.getD index default) with hrun | ⟨name, reason, hrun⟩
    · rw [runFrom, runFrom, hrun]
      cases b'.step.run inputs slots (slots.getD index default) with
      | error err => exact .inl rfl
      | ok v => exact ih
    · rw [runFrom_cons_error hrun]
      exact .inr ⟨name, reason, rfl⟩

/-- Without checks a run gives the same, unless it refused a value. -/
theorem run_unchecked (p : Program) (arguments : List Value) (scope : Scope) (frame : Frame) :
    p.run arguments scope frame =
        (p.reread VariableRead.unchecked p.exported).run arguments scope frame ∨
      ∃ name reason, (p.run arguments scope frame).1 = .error (.wrongType name reason) := by
  have hbindings : (p.reread VariableRead.unchecked p.exported).bindings.toList =
      p.bindings.toList.map (Binding.mapRead VariableRead.unchecked) := Array.toList_map
  have hsize : (p.reread VariableRead.unchecked p.exported).bindings.size = p.bindings.size :=
    Array.size_map
  by_cases length : arguments.length ≠ p.exported.length
  · rw [run, run, if_pos length]
    exact .inl (if_pos length).symm
  · let inputs : Inputs := { arguments, scope, constants := p.constants }
    let start := if frame.slots.size = p.bindings.size then frame else p.newFrame
    have hrefused := @runFrom_or_refused inputs p.bindings.toList
      (p.bindings.toList.map (Binding.mapRead VariableRead.unchecked)) 0 start.slots
      (Binding.refuses_mapRead inputs p.bindings.toList)
    rcases hrefused with heq | ⟨name, reason, herror⟩
    · left
      rw [run, run, if_neg length, hsize, newFrame_reread, hbindings]
      dsimp only
      rw [heq]
      exact (if_neg length).symm
    · right
      have hfault := runFrom_fst_eq_error.1 herror
      exact ⟨name, reason, (run_fst_eq_error (not_not.1 length)).2 hfault⟩

end Program

namespace Environment

open Compile

variable {env : Environment} {options : CompileOptions}

/-- Without checks the same readings are made, unchecked. -/
theorem rereads_unchecked :
    (env.compileContext { options with typechecks := true }).Rereads VariableRead.unchecked
      (env.compileContext { options with typechecks := false }) where
  casts := rfl
  defaultMode := rfl
  mode := rfl
  reads _ _ _ conversion? h := ⟨conversion?, h, rfl⟩

/-- Without conversions the same readings are made, unconverted. -/
theorem rereads_unconverted :
    (env.compileContext { options with casts := true }).Rereads VariableRead.unconverted
      (env.compileContext { options with casts := false }) where
  casts := rfl
  defaultMode := rfl
  mode := rfl
  reads _ _ _ _ _ := ⟨none, rfl, rfl⟩

end Environment

/-- What variables are given, if anything, is what is asked of the types by which they are
represented. -/
def Assignment.Meets (a : Assignment) (e : Expr) (mode : Mode)
    (asked : ConcreteType → Value → Prop) : Prop :=
  ∀ name t target v, (name, some t) ∈ e.usedVariables → t.representation? mode = some target →
    a.value? name = some v → asked target v

namespace Environment

open Compile

variable {env : Environment} {options : CompileOptions} {vars : VariableTypes} {e : Expr}
  {t : MathType} {unit unit' : CompiledUnit} {arguments : List Value} {scope : Scope}

section Units

variable (coherent : env.Coherent) (he : e.HasType env vars t)

include coherent he

/-- A reading that succeeds gets what is asked of the type of its variable. -/
theorem asked_of_reads {asked : ConcreteType → Value → Prop}
    (compiled : env.compile options e = .ok unit)
    (length : arguments.length = options.exported.length)
    (meets : Assignment.Meets { exported := options.exported, arguments, scope } e options.mode
      asked) (constants : Array Value) {r : VariableRead}
    (hr : r ∈ readsOf unit.program.bindings.toList) {v : Value}
    (hv : r.value { arguments, scope, constants } = .ok v) : asked r.target v := by
  obtain ⟨u, hu, hru⟩ := exists_mem_of_forall₂ (reads_of_compile coherent he compiled) hr
  have hgiven := (hru.value_eq_ok length).1 hv
  obtain ⟨t, target, conversion?, htype, represented, -, hstep⟩ := hru
  obtain ⟨name, _⟩ := u
  obtain rfl : _ = some t := htype
  cases hstep
  exact meets name t target v hu represented hgiven

/-- A unit that checks gives what the unit that does not gives, or refuses a value. -/
theorem evaluateWith_unchecked
    (compiled : env.compile { options with typechecks := true } e = .ok unit)
    (compiled' : env.compile { options with typechecks := false } e = .ok unit') :
    unit.evaluateWith arguments scope = unit'.evaluateWith arguments scope ∨
      ∃ name reason, unit.evaluateWith arguments scope = .error (.wrongType name reason) := by
  have hunit' := compile_reread rereads_unchecked (validate_of_compile compiled') compiled
  obtain rfl := Except.ok.inj (hunit'.symm.trans compiled')
  have hexported := exported_of_compile coherent he compiled
  rcases unit.program.run_unchecked arguments scope unit.program.newFrame with hrun | hrefused
  · left
    rw [hexported] at hrun
    rw [CompiledUnit.evaluateWith, CompiledUnit.evaluateIn, hrun]
    rw [CompiledUnit.evaluateWith, CompiledUnit.evaluateIn, Program.newFrame_reread]
  · exact .inr hrefused

/-- Where no value is complained of, a unit that checks gives what the unit that does not gives. -/
theorem evaluateWith_unchecked_of_complaint
    (compiled : env.compile { options with typechecks := true } e = .ok unit)
    (compiled' : env.compile { options with typechecks := false } e = .ok unit')
    (meets : Assignment.Meets { exported := options.exported, arguments, scope } e options.mode
      fun c v => c.complaint v = none) :
    unit.evaluateWith arguments scope = unit'.evaluateWith arguments scope := by
  by_cases length : arguments.length = options.exported.length
  · have hunit' := compile_reread rereads_unchecked (validate_of_compile compiled') compiled
    obtain rfl := Except.ok.inj (hunit'.symm.trans compiled')
    have hexported := exported_of_compile coherent he compiled
    apply CompiledUnit.evaluateWith_reread rfl (length.trans (congrArg _ hexported.symm)) length
    intro constants r hr place
    apply VariableRead.run_unchecked_of_complaint
    intro v hv
    exact asked_of_reads coherent he compiled length meets constants hr hv
  · rw [CompiledUnit.evaluateWith, CompiledUnit.evaluateWith,
      evaluateIn_eq_argumentCount coherent he compiled length,
      evaluateIn_eq_argumentCount coherent he compiled' length]

/-- Where every value is of its type, a unit that converts gives what the unit that does not
gives. -/
theorem evaluateWith_unconverted
    (compiled : env.compile { options with casts := true } e = .ok unit)
    (compiled' : env.compile { options with casts := false } e = .ok unit')
    (meets : Assignment.Meets { exported := options.exported, arguments, scope } e options.mode
      fun c v => c.accepts v = true) :
    unit.evaluateWith arguments scope = unit'.evaluateWith arguments scope := by
  by_cases length : arguments.length = options.exported.length
  · have hunit' := compile_reread rereads_unconverted (validate_of_compile compiled') compiled
    obtain rfl := Except.ok.inj (hunit'.symm.trans compiled')
    have hexported := exported_of_compile coherent he compiled
    apply CompiledUnit.evaluateWith_reread rfl (length.trans (congrArg _ hexported.symm)) length
    intro constants r hr place
    apply VariableRead.run_unconverted
    intro v hv
    exact asked_of_reads coherent he compiled length meets constants hr hv
  · rw [CompiledUnit.evaluateWith, CompiledUnit.evaluateWith,
      evaluateIn_eq_argumentCount coherent he compiled length,
      evaluateIn_eq_argumentCount coherent he compiled' length]

/-- Where no value is complained of, none is refused. -/
theorem evaluateWith_ne_wrongType (compiled : env.compile options e = .ok unit)
    (meets : Assignment.Meets { exported := options.exported, arguments, scope } e options.mode
      fun c v => c.complaint v = none) (name reason : String) :
    unit.evaluateWith arguments scope ≠ .error (.wrongType name reason) := by
  intro herror
  by_cases length : arguments.length = options.exported.length
  · obtain ⟨before, v, after, hused, -, hfails⟩ :=
      (evaluateIn_eq_error coherent he compiled length).1 herror
    have hv : v ∈ e.usedVariables := by simp [hused]
    cases hfails with
    | refused given checked represented kept complaint =>
      have hnone := meets _ _ _ _ hv represented given
      exact absurd (hnone.symm.trans complaint) nofun
  · rw [CompiledUnit.evaluateWith,
      evaluateIn_eq_argumentCount coherent he compiled length] at herror
    cases herror

end Units

/-- Options are conservative. An expression compiles with checks exactly if it does without, and a
unit that checks gives what the other gives or refuses a value, which it does for none that its type
does not complain of. Where it compiles with conversions of variables it does without, and the units
give the same where every value is accepted by the type that the variable has in the mode that is
compiled for. All runs are from fresh slots. -/
theorem options_conservative (reachable : env.Reachable) (vars : VariableTypes) {e : Expr}
    (resolved : (env.resolve vars e).2.hasErrors = false) (options : CompileOptions) :
    ((∃ unit, env.compile { options with typechecks := true } (env.resolve vars e).1 = .ok unit) ↔
      ∃ unit', env.compile { options with typechecks := false } (env.resolve vars e).1 =
        .ok unit') ∧
    (∀ unit unit',
      env.compile { options with typechecks := true } (env.resolve vars e).1 = .ok unit →
      env.compile { options with typechecks := false } (env.resolve vars e).1 = .ok unit' →
      ∀ arguments scope,
        (unit.evaluateWith arguments scope = unit'.evaluateWith arguments scope ∨
          ∃ name reason, unit.evaluateWith arguments scope = .error (.wrongType name reason)) ∧
        (Assignment.Meets { exported := options.exported, arguments, scope }
            (env.resolve vars e).1 options.mode (fun c v => c.complaint v = none) →
          unit.evaluateWith arguments scope = unit'.evaluateWith arguments scope ∧
          ∀ name reason, unit.evaluateWith arguments scope ≠ .error (.wrongType name reason))) ∧
    ∀ unit, env.compile { options with casts := true } (env.resolve vars e).1 = .ok unit →
      ∃ unit', env.compile { options with casts := false } (env.resolve vars e).1 = .ok unit' ∧
        ∀ arguments scope,
          Assignment.Meets { exported := options.exported, arguments, scope }
            (env.resolve vars e).1 options.mode (fun c v => c.accepts v = true) →
          unit.evaluateWith arguments scope = unit'.evaluateWith arguments scope := by
  have coherent := reachable.coherent
  obtain ⟨t, ht⟩ := Expr.hasType_resolve resolved
  refine ⟨?_, ?_, ?_⟩
  · apply Except.ok_iff_of_map_eq
    exact compile_alike coherent ht rfl rfl rfl
  · intro unit unit' hunit hunit' arguments scope
    refine ⟨evaluateWith_unchecked coherent ht hunit hunit', fun meets => ⟨?_, ?_⟩⟩
    · exact evaluateWith_unchecked_of_complaint coherent ht hunit hunit' meets
    · exact evaluateWith_ne_wrongType coherent ht hunit meets
  · intro unit hunit
    have hvalid := validate_of_compile hunit
    have hunit' := compile_reread rereads_unconverted hvalid hunit
    refine ⟨_, hunit', fun arguments scope meets => ?_⟩
    exact evaluateWith_unconverted coherent ht hunit hunit' meets

end Environment

namespace Sums

/-- On two numbers `x + y + x` is the same with checks and without, and with conversions and
without. -/
theorem crossed_on_numbers :
    ∃ checked unchecked converting,
      env.compile { typechecks := true } (env.resolve .empty crossed).1 = .ok checked ∧
      env.compile {} (env.resolve .empty crossed).1 = .ok unchecked ∧
      env.compile { casts := true } (env.resolve .empty crossed).1 = .ok converting ∧
      ∀ x y, checked.evaluateWith [] ((Directory.empty.insert "x" (.real x)).insert "y" (.real y)) =
          unchecked.evaluateWith []
            ((Directory.empty.insert "x" (.real x)).insert "y" (.real y)) ∧
        converting.evaluateWith []
            ((Directory.empty.insert "x" (.real x)).insert "y" (.real y)) =
          unchecked.evaluateWith []
            ((Directory.empty.insert "x" (.real x)).insert "y" (.real y)) := by
  have hresolved : (env.resolve .empty crossed).2.hasErrors = false := by decide +kernel
  have hchecked :
      (env.compile { typechecks := true } (env.resolve .empty crossed).1).isOk = true := by
    decide +kernel
  have hconverting :
      (env.compile { casts := true } (env.resolve .empty crossed).1).isOk = true := by
    decide +kernel
  have hused : (env.resolve .empty crossed).1.usedVariables =
      [("x", some (mathType real)), ("y", some (mathType real))] := rfl
  obtain ⟨hiff, hchecks, hcasts⟩ :=
    Environment.options_conservative reachable_env .empty hresolved {}
  obtain ⟨checked, hchecked⟩ := Except.exists_of_isOk hchecked
  obtain ⟨unchecked, hunchecked⟩ := hiff.1 ⟨checked, hchecked⟩
  obtain ⟨converting, hconverting⟩ := Except.exists_of_isOk hconverting
  obtain ⟨unconverting, hunconverting, hconverted⟩ := hcasts converting hconverting
  obtain rfl := Except.ok.inj (hunchecked.symm.trans hunconverting)
  refine ⟨checked, unchecked, converting, hchecked, hunchecked, hconverting, fun x y => ?_⟩
  -- both variables are given real numbers, and that is how they are represented
  have hnumbers : ∀ asked : ConcreteType → Value → Prop, (∀ z, asked real (.real z)) →
      Assignment.Meets
        { exported := [], arguments := [],
          scope := (Directory.empty.insert "x" (.real x)).insert "y" (.real y) }
        (env.resolve .empty crossed).1 Mode.normal asked := by
    intro asked hasked name t target v hmem represented hgiven
    rw [hused] at hmem
    simp only [List.mem_cons, Prod.mk.injEq, Option.some.injEq, List.not_mem_nil, or_false] at hmem
    rcases hmem with ⟨rfl, rfl⟩ | ⟨rfl, rfl⟩
    · obtain rfl := Option.some.inj represented
      obtain rfl : .real x = v := by simpa [Assignment.value?] using hgiven
      exact hasked x
    · obtain rfl := Option.some.inj represented
      obtain rfl : .real y = v := by simpa [Assignment.value?] using hgiven
      exact hasked y
  constructor
  · exact ((hchecks checked unchecked hchecked hunchecked [] _).2
      (hnumbers _ fun _ => rfl)).1
  · exact hconverted [] _ (hnumbers _ fun _ => rfl)

end Sums

end Formula
