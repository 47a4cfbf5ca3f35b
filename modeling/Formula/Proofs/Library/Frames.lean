import Formula.Proofs.Library.Standard
import Formula.Proofs.Program.Frames
/-!
Over the standard library frames are storage and nothing else: what a program gives, and what it
leaves in the slots that it computes, is the same whatever the frame held before.
-/

namespace Formula

open Library in
/-- All evaluators that an environment of the library offers overwrite their place, in every
mode. -/
theorem Library.Furnished.overwrites {config : Config} {env : Environment}
    (furnished : Furnished config env) {mode : Mode} {f : Evaluator} (h : env.Offers mode f) :
    f.Overwrites := by
  cases h with
  | overload known found =>
    exact ((furnished.overloads _ _ known).2 _ _ found).1.overwrites
  | conversion known =>
    obtain ⟨source, target, c, hfind, rfl⟩ := known
    exact (furnished.conversions _ _ _ hfind).1.overwrites

namespace Environment

/-- Over the standard library it cannot be seen which frame a program is run on. The result is that
of a run on fresh slots, and so are the slots that a run leaves if it succeeds. If it fails, it
stops at the step at which a run on fresh slots stops: of a frame with as many slots as the program
has, those before that step hold what is computed on fresh slots, and the others what they held. -/
theorem standard_run_on_any_frame {config : Config} (vars : VariableTypes) {e : Expr}
    (resolved : ((standard config).resolve vars e).2.hasErrors = false)
    {options : CompileOptions} {unit : CompiledUnit}
    (compiled :
      (standard config).compile options ((standard config).resolve vars e).1 = .ok unit)
    {arguments : List Value} (length : arguments.length = options.exported.length) (scope : Scope)
    (frame : Frame) :
    (unit.evaluateIn arguments scope frame).1 = unit.evaluateWith arguments scope ∧
    (∀ v, (unit.evaluateIn arguments scope frame).1 = .ok v →
      (unit.evaluateIn arguments scope frame).2 =
        (unit.evaluateIn arguments scope unit.program.newFrame).2) ∧
    (∀ err, (unit.evaluateIn arguments scope frame).1 = .error err ↔
      ∃ k, unit.program.StopsAt arguments scope frame k err) ∧
    ∀ k err, unit.program.StopsAt arguments scope frame k err →
      unit.program.StopsAt arguments scope unit.program.newFrame k err ∧
      (frame.slots.size = unit.program.bindings.size → ∀ i : Nat,
        (unit.evaluateIn arguments scope frame).2.slots[i]? =
          if i < k then (unit.evaluateIn arguments scope unit.program.newFrame).2.slots[i]?
          else frame.slots[i]?) := by
  have coherent := (reachable_standard config).coherent
  obtain ⟨t, ht⟩ := Expr.hasType_resolve resolved
  have hexported := (ofProgram_offering coherent ht compiled).exported
  have hlength : arguments.length = unit.program.exported.length := hexported ▸ length
  have hp := sequential_of_compile coherent ht compiled
    fun _ => (furnished_standard config).overwrites
  refine ⟨Program.run_fst_eq hp hlength frame _, fun v hv => Program.run_snd_eq hp hlength hv _,
    fun err => Program.run_eq_error hlength, fun k err stops => ⟨?_, fun size i => ?_⟩⟩
  · exact (Program.stopsAt_iff hp).2 ((Program.stopsAt_iff hp).1 stops)
  · have hstart : unit.program.startOf frame = frame.slots := if_pos size
    rw [← hstart]
    exact Program.getElem?_of_stopsAt hp hlength stops _ i

/-- The expression `complex(x, 1) * y`. -/
def rotated : Expr :=
  .op .pending "*"
    [.op .pending "complex" [.var .pending "x", .const .pending (.int 1) "int" none] none,
      .var .pending "y"] none

/-- Without a value for `y` every frame gives the same error; a frame of five truth values keeps
them from some step on. -/
theorem run_rotated_on_any_frame :
    ∃ unit, (standard {}).compile {} ((standard {}).resolve .empty rotated).1 = .ok unit ∧
      (∀ frame, (unit.evaluateIn [] (Directory.empty.insert "x" (.real 3)) frame).1 =
        .error (.missingVariable "y")) ∧
      ∃ k, ∀ i : Nat, (unit.evaluateIn [] (Directory.empty.insert "x" (.real 3))
        { slots := Array.replicate 5 (.bool true) }).2.slots[i]? =
          if i < k then (unit.evaluateIn [] (Directory.empty.insert "x" (.real 3))
            unit.program.newFrame).2.slots[i]?
          else (Array.replicate 5 (Value.bool true))[i]? := by
  have hresolved : ((standard {}).resolve .empty rotated).2.hasErrors = false := by
    decide +kernel
  have hrun : ((standard {}).compile {} ((standard {}).resolve .empty rotated).1).toOption.map
      (fun unit => (unit.program.bindings.size,
        unit.evaluateWith [] (Directory.empty.insert "x" (.real 3)))) =
      some (5, .error (.missingVariable "y")) := by decide +kernel
  cases hunit : (standard {}).compile {} ((standard {}).resolve .empty rotated).1 with
  | error e =>
    rw [hunit] at hrun
    cases hrun
  | ok unit =>
    rw [hunit] at hrun
    obtain ⟨hsize, hmissing⟩ := Prod.mk.inj (Option.some.inj hrun)
    have hlength : ([] : List Value).length = ({} : CompileOptions).exported.length := rfl
    have hframe := standard_run_on_any_frame .empty hresolved hunit hlength
      (Directory.empty.insert "x" (.real 3))
    have herror : ∀ frame, (unit.evaluateIn [] (Directory.empty.insert "x" (.real 3)) frame).1 =
        .error (.missingVariable "y") := fun frame => (hframe frame).1.trans hmissing
    refine ⟨unit, rfl, herror, ?_⟩
    obtain ⟨-, -, hstops, hslots⟩ := hframe { slots := Array.replicate 5 (.bool true) }
    obtain ⟨k, hk⟩ := (hstops _).1 (herror _)
    exact ⟨k, (hslots k _ hk).2 hsize.symm⟩

end Environment

end Formula
