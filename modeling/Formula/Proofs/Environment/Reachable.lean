import Formula.Library.Basic
import Formula.Proofs.Environment.Registration
/-!
The environments that registrations lead to, with what the registries check of a definition before
they take it.
-/

namespace Formula

/-! ### Overloads -/

namespace Overload

/-- The overloads that can be made: without evaluators, or by attaching one to another. -/
inductive Formed : Overload → Prop
  | bare (name : String) (arguments : List MathType) (result : MathType) :
      Formed { name, arguments, result }
  | attach {o o' : Overload} {mode : Mode} {e : Evaluator} (formed : Formed o)
      (attached : o.attach mode e = .ok o') : Formed o'

/-- A concrete type is named as the representation of a mathematical type in a mode. -/
def Represents (mode : Mode) (t : MathType) (c : ConcreteType) : Prop :=
  ∃ known, t.representation? mode = some known ∧ known.name = c.name

/-- Each evaluator of an overload is between representations of its types. -/
structure Represented (o : Overload) : Prop where
  arguments : ∀ mode e, o.evaluator? mode = some e →
    List.Forall₂ (Represents mode) o.arguments e.arguments
  result : ∀ mode e, o.evaluator? mode = some e → Represents mode o.result e.result

theorem checkType_eq_ok {o : Overload} {mode : Mode} {e : Evaluator} {t : MathType}
    {c : ConcreteType} : o.checkType mode e t c = .ok () ↔ Represents mode t c := by
  unfold checkType Represents
  cases t.representation? mode <;> simp

/-- What attaching an evaluator to an overload checks, and what it makes. -/
theorem attach_eq_ok {o o' : Overload} {mode : Mode} {e : Evaluator}
    (h : o.attach mode e = .ok o') :
    List.Forall₂ (Represents mode) o.arguments e.arguments ∧ Represents mode o.result e.result ∧
      o' = { o with evaluators := o.evaluators.insert mode e } := by
  unfold attach at h
  split at h
  · simp at h
  · rename_i harity
    obtain ⟨⟨⟩, hchecks, h⟩ := Except.bind_eq_ok.1 h
    -- the checks run over the arguments and the result in one list
    have hlen : e.arguments.length = o.arguments.length := not_not.1 harity
    rw [List.zip_append hlen.symm, Except.forM_eq_ok] at hchecks
    refine ⟨List.forall₂_iff_zip.2 ⟨hlen.symm, fun hp => ?_⟩, ?_, (Except.pure_eq_ok.1 h).symm⟩
    · exact checkType_eq_ok.1 (hchecks _ (List.mem_append_left _ hp))
    · exact checkType_eq_ok.1 (hchecks (o.result, e.result) (by simp))

theorem represented_bare (name : String) (arguments : List MathType) (result : MathType) :
    Represented { name, arguments, result } :=
  ⟨fun _ _ h => (nomatch h), fun _ _ h => (nomatch h)⟩

theorem Represented.attach {o o' : Overload} {mode : Mode} {e : Evaluator} (ho : o.Represented)
    (h : o.attach mode e = .ok o') : o'.Represented := by
  obtain ⟨harguments, hresult, rfl⟩ := attach_eq_ok h
  constructor
  · intro mode' e' he'
    rcases Directory.get?_insert_eq_some he' with ⟨rfl, rfl⟩ | he'
    · exact harguments
    · exact ho.arguments mode' e' he'
  · intro mode' e' he'
    rcases Directory.get?_insert_eq_some he' with ⟨rfl, rfl⟩ | he'
    · exact hresult
    · exact ho.result mode' e' he'

theorem Formed.represented {o : Overload} (h : o.Formed) : o.Represented := by
  induction h with
  | bare name arguments result => exact represented_bare name arguments result
  | attach _ attached ih => exact ih.attach attached

theorem Spec.formed_build {s : Spec} {types : TypeRegistry} {o : Overload}
    (h : s.build types = .ok o) : o.Formed := by
  unfold Spec.build at h
  simp only [Except.bind_eq_ok] at h
  obtain ⟨arguments, -, result, -, h⟩ := h
  refine Except.foldlM_induction h (.bare _ _ _) fun e _ o o' ho hstep => ?_
  obtain ⟨f, -, hstep⟩ := Except.bind_eq_ok.1 hstep
  exact ho.attach hstep

end Overload

/-! ### Registries -/

namespace CastRegistry

variable {α : Type}

theorem find?_enter (d : Directory (Directory α)) (source target source' target' : String)
    (c : α) : find? (enter d source target c) source' target' =
      if source' = source ∧ target' = target then some c else find? d source' target' := by
  unfold find? enter
  rw [Directory.get?_insert]
  by_cases hs : source' = source
  · subst hs
    cases d.get? source' <;> simp
  · simp [hs]

theorem find?_enter_eq_some {d : Directory (Directory α)} {source target source' target' : String}
    {c c' : α} (h : find? (enter d source target c) source' target' = some c') :
    (source' = source ∧ target' = target ∧ c' = c) ∨ find? d source' target' = some c' := by
  rw [find?_enter] at h
  by_cases hnames : source' = source ∧ target' = target
  · rw [if_pos hnames] at h
    exact .inl ⟨hnames.1, hnames.2, (Option.some.inj h).symm⟩
  · rw [if_neg hnames] at h
    exact .inr h

theorem registerMath_iff {r r' : CastRegistry} {c : MathCast} :
    r.registerMath c = .ok r' ↔ c.source.name ≠ c.target.name ∧
      r' = { r with mathematical := enter r.mathematical c.source.name c.target.name c } := by
  unfold registerMath
  split <;> simp_all [eq_comm]

theorem registerConcrete_iff {r r' : CastRegistry} {c : ConcreteCast} :
    r.registerConcrete c = .ok r' ↔ c.source.name ≠ c.target.name ∧
      r' = { r with concrete := enter r.concrete c.source.name c.target.name c } := by
  unfold registerConcrete
  split <;> simp_all [eq_comm]

theorem concreteCast?_eq_identity {r : CastRegistry} {source target : ConcreteType}
    (h : r.concreteCast? source target = some .identity) : source.name = target.name := by
  unfold concreteCast? at h
  split at h
  · assumption
  · simp at h

theorem concreteCast?_eq_convert {r : CastRegistry} {source target : ConcreteType}
    {c : ConcreteCast} (h : r.concreteCast? source target = some (.convert c)) :
    find? r.concrete source.name target.name = some c := by
  unfold concreteCast? at h
  split at h
  · simp at h
  · simpa using h

end CastRegistry

namespace TypeRegistry

theorem concreteType_eq_ok {r : TypeRegistry} {name : String} {c : ConcreteType} :
    r.concreteType name = .ok c ↔ r.concrete.get? name = some c := by
  unfold concreteType
  cases r.concrete.get? name <;> simp

end TypeRegistry

namespace OperatorRegistry

theorem candidates_register (r : OperatorRegistry) (o : Overload) (name : String) :
    (r.register o).2.candidates name =
      if name = o.name then r.candidates name ++ [{ o with rank := (r.candidates name).length }]
      else r.candidates name := by
  unfold register candidates
  rw [Directory.get?_insert]
  by_cases h : name = o.name <;> simp [h]

/-- A registered overload is as it was but for its rank. -/
theorem mem_candidates_register {r : OperatorRegistry} {o p : Overload} {name : String}
    (h : p ∈ (r.register o).2.candidates name) :
    p ∈ r.candidates name ∨ ∃ rank, p = { o with rank } := by
  rw [candidates_register] at h
  by_cases hname : name = o.name
  · rw [if_pos hname] at h
    exact (List.mem_append.1 h).imp id fun h => ⟨_, List.mem_singleton.1 h⟩
  · rw [if_neg hname] at h
    exact .inl h

end OperatorRegistry

/-! ### Requests -/

/-- A registration that can be asked for. -/
inductive Request where
  | buildConcreteType (p : ConcreteType.Parts)
  | concreteType (c : ConcreteType)
  | mathType (t : MathType)
  | defineMathType (name : String) (representations : List (Mode × String))
  | mathCast (c : MathCast)
  | defineMathCast (source target : String)
  | concreteCast (e : Evaluator)
  | defineConcreteCast (s : Evaluator.Spec)
  | overload (o : Overload) (formed : o.Formed)
  | defineOverload (s : Overload.Spec)

open Registration in
/-- What a request does. -/
def Request.perform : Request → Registration Unit
  | buildConcreteType p => discard (Registration.buildConcreteType p)
  | concreteType c => discard (registerConcreteType c)
  | mathType t => discard (registerMathType t)
  | defineMathType name representations =>
    discard (Registration.defineMathType name representations)
  | mathCast c => discard (registerMathCast c)
  | defineMathCast source target => discard (Registration.defineMathCast source target)
  | concreteCast e => discard (registerConcreteCast e)
  | defineConcreteCast s => discard (Registration.defineConcreteCast s)
  | overload o _ => discard (registerOverload o)
  | defineOverload s => discard (Registration.defineOverload s)

namespace Environment

/-- The environment after a request. -/
def after (env : Environment) (r : Request) : Environment :=
  (r.perform.run env).2

/-- The environments that requests lead to from an empty one. -/
inductive Reachable : Environment → Prop
  | empty (config : Config) : Reachable { config }
  | after {env : Environment} (reachable : Reachable env) (r : Request) : Reachable (env.after r)

end Environment

/-! ### Sums of complex numbers -/

namespace Sums

/-- Real numbers as plain values. -/
def real : ConcreteType where
  name := "real"
  isPrimitive := true
  initial := .real 0
  accepts v := v.kind == .real
  explain? := none
  copy := id
  copyOver? := none
  stamp := 0

/-- Complex numbers, which may be overwritten in place. -/
def complex : ConcreteType where
  name := "complex"
  isPrimitive := false
  initial := .complex ⟨0, 0⟩
  accepts v := v.kind == .complex
  explain? := none
  copy := id
  copyOver? := some fun v _ => v
  stamp := 1

/-- A type of the name of its representation. -/
def mathType (c : ConcreteType) : MathType :=
  { name := c.name, representations := Directory.empty.insert Mode.normal c }

/-- Real numbers on the real axis. -/
def lift : Evaluator where
  arguments := [real]
  result := complex
  delivery := .inPlace
  isIdentity := false
  implementation := .function (.inPlace₁ fun a => .complex a.toComplex)

/-- The sum of complex numbers. -/
def add : Evaluator where
  arguments := [complex, complex]
  result := complex
  delivery := .inPlace
  isIdentity := false
  implementation := .function (.complexPair .add)

/-- The sum as an operator. -/
def sum : Overload where
  name := "+"
  arguments := [mathType complex, mathType complex]
  result := mathType complex
  evaluators := Directory.empty.insert Mode.normal add

theorem formed_sum : sum.Formed := by
  have bare := Overload.Formed.bare "+" [mathType complex, mathType complex] (mathType complex)
  exact @Overload.Formed.attach _ _ Mode.normal add bare rfl

/-- What is registered. -/
def requests : List Request :=
  [.concreteType real, .concreteType complex, .mathType (mathType real),
    .mathType (mathType complex), .mathCast (.between (mathType real) (mathType complex)),
    .concreteCast lift, .overload sum formed_sum]

/-- An environment with sums of complex numbers, as which real numbers count too. -/
def env : Environment :=
  requests.foldl Environment.after {}

theorem reachable_env : env.Reachable :=
  .after (.after (.after (.after (.after (.after (.after (.empty {}) _) _) _) _) _) _) _

end Sums

end Formula
