import Formula.Proofs.Program.Replacement
import Formula.Proofs.Program.Rereading
/-!
Variables that are passed by position and by name. Passing the values of some variables as
positional arguments is the same as writing them into the scope.
-/

namespace Formula

/-! ### Names of positional arguments -/

theorem CompileOptions.checkExported_eq_ok {names seen : List String}
    (proper : ∀ name ∈ names, Text.isName name = true) (nodup : names.Nodup)
    (new : ∀ name ∈ names, name ∉ seen) : checkExported seen names = .ok () := by
  induction names generalizing seen with
  | nil => rfl
  | cons name names ih =>
    rw [List.forall_mem_cons] at proper new
    rw [List.nodup_cons] at nodup
    have hseen : seen.contains name = false := by
      rw [← Bool.not_eq_true, List.contains_iff_mem]
      exact new.1
    have hrest : ∀ other ∈ names, other ∉ name :: seen := by
      intro other hother hmem
      rcases List.mem_cons.1 hmem with rfl | hmem
      · exact nodup.1 hother
      · exact new.2 other hother hmem
    rw [checkExported, proper.1, hseen]
    exact ih proper.2 nodup.2 hrest

/-- Distinct and proper names may be exported. -/
theorem CompileOptions.validate_eq_ok {options : CompileOptions}
    (proper : ∀ name ∈ options.exported, Text.isName name = true)
    (nodup : options.exported.Nodup) : options.validate = .ok () :=
  checkExported_eq_ok proper nodup fun _ _ => List.not_mem_nil

/-! ### Scopes -/

/-- A scope with the values of some names written over. -/
def Scope.overridden (scope : Scope) (names : List String) (values : List Value) : Scope :=
  (names.zip values).foldl (fun s entry => s.insert entry.1 entry.2) scope

/-- Under a name that is written over stands the value that was written. -/
theorem Scope.get?_overridden {names : List String} {values : List Value} (nodup : names.Nodup)
    (scope : Scope) (name : String) : (scope.overridden names values).get? name =
      ((names.zip values).lookup name).or (scope.get? name) := by
  unfold overridden
  induction names generalizing values scope with
  | nil => rfl
  | cons n names ih =>
    rw [List.nodup_cons] at nodup
    cases values with
    | nil => rfl
    | cons v values =>
      rw [List.zip_cons_cons, List.foldl_cons, ih nodup.2, Directory.lookup_cons_ite,
        Directory.get?_insert]
      by_cases hname : name = n
      · have hlookup : (names.zip values).lookup name = none :=
          Assignment.lookup_zip_eq_none (hname ▸ nodup.1)
        simp [hname ▸ hlookup, hname]
      · simp [hname]

/-! ### Readings -/

/-- The reading of a variable by name. -/
def VariableRead.byName (r : VariableRead) : VariableRead :=
  { r with position? := none }

theorem VariableRead.run_byName {r : VariableRead} {inputs inputs' : Inputs}
    (h : r.value inputs = r.byName.value inputs') (place : Value) :
    r.run inputs place = r.byName.run inputs' place := by
  rw [run, run, h]
  rfl

namespace Environment

open Compile

variable {env : Environment} {options : CompileOptions} {names : List String}

/-- Without positional arguments the same readings are made, but by name. -/
theorem rereads_byName (inner : options.exported = []) :
    (env.compileContext { options with exported := names }).Rereads VariableRead.byName
      (env.compileContext options) where
  casts := rfl
  defaultMode := rfl
  mode := rfl
  reads name t target conversion? h := by
    refine ⟨conversion?, h, ?_⟩
    rw [readOf, compileContext_options, inner]
    rfl

variable {vars : VariableTypes} {e : Expr} {t : MathType} {unit unit' : CompiledUnit}

/-- A unit with positional arguments gives what the unit without them gives on the scope in which
they are written over. -/
theorem evaluateWith_eq_evaluate (coherent : env.Coherent) (he : e.HasType env vars t)
    (nodup : names.Nodup) (valid : options.validate = .ok ()) (inner : options.exported = [])
    (compiled : env.compile { options with exported := names } e = .ok unit)
    (compiled' : env.compile options e = .ok unit') {arguments : List Value}
    (length : arguments.length = names.length) (scope : Scope) :
    unit.evaluateWith arguments scope = unit'.evaluate (scope.overridden names arguments) := by
  have hunit' := compile_reread (rereads_byName inner) valid compiled
  obtain rfl := Except.ok.inj (hunit'.symm.trans compiled')
  have hexported := exported_of_compile coherent he compiled
  have hnone : ([] : List Value).length = options.exported.length := by rw [inner]; rfl
  apply CompiledUnit.evaluateWith_reread rfl (length.trans (congrArg _ hexported.symm)) hnone
  intro constants r hr place
  obtain ⟨v, hv, hrv⟩ := exists_mem_of_forall₂ (reads_of_compile coherent he compiled) hr
  apply VariableRead.run_byName
  rw [hrv.value_eq length]
  simp only [VariableRead.value, VariableRead.byName, hrv.name_eq, Scope.get?_overridden nodup]
  rfl

/-- Passing arguments by position and writing them into the scope agree. For distinct and proper
names, used or not, an expression compiles with these as positional arguments exactly if it does
without, and fails with the same error; the unit that takes the arguments gives, value or error,
what the unit that takes none gives on the scope in which they are written over. -/
theorem positional_eq_named (reachable : env.Reachable) (vars : VariableTypes) {e : Expr}
    (resolved : (env.resolve vars e).2.hasErrors = false)
    (proper : ∀ name ∈ names, Text.isName name = true) (nodup : names.Nodup)
    (inner : options.exported = []) :
    ((∃ unit, env.compile { options with exported := names } (env.resolve vars e).1 = .ok unit) ↔
      ∃ unit', env.compile options (env.resolve vars e).1 = .ok unit') ∧
    (∀ err, env.compile { options with exported := names } (env.resolve vars e).1 = .error err ↔
      env.compile options (env.resolve vars e).1 = .error err) ∧
    ∀ unit unit',
      env.compile { options with exported := names } (env.resolve vars e).1 = .ok unit →
      env.compile options (env.resolve vars e).1 = .ok unit' →
      ∀ arguments scope, arguments.length = names.length →
        unit.evaluateWith arguments scope = unit'.evaluate (scope.overridden names arguments) := by
  have coherent := reachable.coherent
  obtain ⟨t, ht⟩ := Expr.hasType_resolve resolved
  have hvalid : options.validate = .ok () := by
    rw [CompileOptions.validate, inner]
    rfl
  have hvalid' : ({ options with exported := names } : CompileOptions).validate = .ok () :=
    CompileOptions.validate_eq_ok proper nodup
  have halike := @compile_alike env options { options with exported := names } _ vars t coherent ht
    rfl rfl (hvalid'.trans hvalid.symm)
  refine ⟨Except.ok_iff_of_map_eq halike, Except.error_iff_of_map_eq halike, ?_⟩
  intro unit unit' hunit hunit' arguments scope length
  exact evaluateWith_eq_evaluate coherent ht nodup hvalid inner hunit hunit' length scope

end Environment

/-- In `x + y + x` the variable `y` may be passed as well as written into the scope, together with
one that is not used. -/
theorem Sums.crossed_positional_eq_named :
    ∃ unit unit',
      env.compile { exported := ["z", "y"] } (env.resolve .empty crossed).1 = .ok unit ∧
      env.compile {} (env.resolve .empty crossed).1 = .ok unit' ∧
      ∀ y z scope, unit.evaluateWith [z, y] scope =
        unit'.evaluate ((scope.insert "z" z).insert "y" y) := by
  have hresolved : (env.resolve .empty crossed).2.hasErrors = false := by decide +kernel
  have hcompiled : (env.compile {} (env.resolve .empty crossed).1).isOk = true := by decide +kernel
  obtain ⟨hiff, -, hruns⟩ := @Environment.positional_eq_named env {} ["z", "y"] reachable_env .empty
    _ hresolved (by decide) (by decide) rfl
  obtain ⟨unit', hunit'⟩ := Except.exists_of_isOk hcompiled
  obtain ⟨unit, hunit⟩ := hiff.2 ⟨unit', hunit'⟩
  exact ⟨unit, unit', hunit, hunit', fun y z scope =>
    hruns unit unit' hunit hunit' [z, y] scope rfl⟩

end Formula
