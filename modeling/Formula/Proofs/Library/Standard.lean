import Formula.Proofs.Environment.Settings
import Formula.Proofs.Library.Operators
import Formula.Proofs.Library.Origins
/-!
What the standard environment knows: in the mode `normal` its types are represented by plain values,
and all its evaluators are lawful.
-/

namespace Formula

namespace Library

/-- A concrete type of plain values. -/
def Plain (c : ConcreteType) : Prop :=
  Built c ∧ c.name ∈ plainNames

/-- A mathematical type is represented by plain values in the mode `normal`. -/
def PlainlyRepresented (t : MathType) : Prop :=
  ∀ c, t.representation? Mode.normal = some c → Plain c

theorem Plain.accepts_iff {c : ConcreteType} (hc : Plain c) (v : Value) :
    c.accepts v = true ↔ Belongs c.name v :=
  ⟨(known_of_built hc.1).accepted v, ((known_of_built hc.1).plain hc.2).2 v⟩

/-- A plain type has no words of its own for the values that it refuses. -/
theorem Plain.complaint_eq_none {c : ConcreteType} (hc : Plain c) {v : Value} :
    c.complaint v = none ↔ c.accepts v = true := by
  have hexplain := ((known_of_built hc.1).plain hc.2).1
  unfold ConcreteType.complaint
  rw [hexplain]
  by_cases haccepts : c.accepts v = true <;> simp [haccepts]

end Library

namespace Evaluator

open Library

/-- An evaluator takes and gives plain values. -/
structure Plain (e : Evaluator) : Prop where
  arguments : ∀ c ∈ e.arguments, Library.Plain c
  result : Library.Plain e.result

/-- A description of an evaluator of plain values. -/
def Spec.Plain (s : Spec) : Prop :=
  s.result ∈ plainNames ∧ ∀ n ∈ s.arguments, n ∈ plainNames

instance (s : Spec) : Decidable s.Plain :=
  inferInstanceAs (Decidable (_ ∧ _))

theorem Spec.Plain.plain_of_build {s : Spec} (hs : s.Plain) {types : TypeRegistry}
    (htypes : Spec.Typed types) {e : Evaluator} (h : s.build types = .ok e) : e.Plain := by
  obtain ⟨hnames, hresult, hbuilt, hbuilts⟩ := names_of_build htypes h
  refine ⟨fun c hc => ⟨hbuilts c hc, ?_⟩, hbuilt, hresult ▸ hs.1⟩
  apply hs.2
  rw [← hnames]
  exact List.mem_map_of_mem hc

end Evaluator

namespace Library

theorem plain_mathTypes :
    ∀ p ∈ mathTypes, ∀ r ∈ p.2, r.1 = Mode.normal → r.2 ∈ plainNames := by decide

theorem plain_concreteCasts : ∀ s ∈ concreteCasts, s.result ∈ plainNames → s.Plain := by decide

theorem plain_overloads :
    ∀ s ∈ overloads, ∀ p ∈ s.evaluators, p.1 = Mode.normal → p.2.Plain := by decide

/-- An environment under some settings whose types are all of the library, and whose conversions and
overloads have lawful evaluators. -/
structure Furnished (config : Config) (env : Environment) : Prop where
  config : env.config = config
  concrete : Evaluator.Spec.Typed env.types
  mathematical : ∀ name t, env.types.mathematical.get? name = some t → PlainlyRepresented t
  representations : ∀ name t, env.types.mathematical.get? name = some t → ∀ mode c,
    t.representation? mode = some c → Built c
  sources : ∀ source target c, CastRegistry.find? env.casts.concrete source target = some c →
    Built c.source
  conversions : ∀ source target c, CastRegistry.find? env.casts.concrete source target = some c →
    c.evaluator.Lawful ∧ (target ∈ plainNames → c.evaluator.Plain)
  overloads : ∀ name, ∀ o ∈ env.operators.candidates name, PlainlyRepresented o.result ∧
    ∀ mode e, o.evaluator? mode = some e → e.Lawful ∧ (mode = Mode.normal → e.Plain)

theorem Listed.plainlyRepresented {t : MathType} (h : Listed t) : PlainlyRepresented t := by
  obtain ⟨p, hp, hrepresentations⟩ := h
  intro c hc
  obtain ⟨hbuilt, hmem⟩ := hrepresentations _ c hc
  exact ⟨hbuilt, plain_mathTypes p hp _ hmem rfl⟩

/-- What is described in the library is lawful, and plain where plain values are meant. -/
theorem Described.furnished {env : Environment} (h : Described env) :
    Furnished env.config env := by
  constructor
  case config => rfl
  case concrete => exact h.concrete
  case mathematical => exact fun name t known => (h.mathematical name t known).plainlyRepresented
  case representations =>
    intro name t known mode c hc
    obtain ⟨p, -, hrepresentations⟩ := h.mathematical name t known
    exact (hrepresentations mode c hc).1
  case sources =>
    intro source target c hfind
    obtain ⟨-, -, s, -, hmakes⟩ := h.conversions source target c hfind
    exact hmakes.names.2.2.2 c.source (by simp [c.arguments_eq])
  case conversions =>
    intro source target c hfind
    obtain ⟨-, htarget, s, hs, types, htypes, hbuild⟩ := h.conversions source target c hfind
    refine ⟨(lawful_concreteCasts s hs).lawful_of_build htypes hbuild, fun hplain => ?_⟩
    have hresult : s.result = target :=
      (Evaluator.Spec.names_of_build htypes hbuild).2.1.symm.trans htarget
    exact (plain_concreteCasts s hs (hresult ▸ hplain)).plain_of_build htypes hbuild
  case overloads =>
    intro name o candidate
    obtain ⟨hresult, hevaluators⟩ := h.overloads name o candidate
    refine ⟨hresult.plainlyRepresented, fun mode e he => ?_⟩
    obtain ⟨s, hs, p, hp, rfl, types, htypes, hbuild⟩ := hevaluators mode e he
    -- lawful in every mode, but plain in the mode `normal` only
    refine ⟨(lawful_overloads s hs p hp).lawful_of_build htypes hbuild, fun hmode => ?_⟩
    exact (plain_overloads s hs p hp hmode).plain_of_build htypes hbuild

end Library

open Library in
/-- The standard environment knows types of the library and lawful evaluators only. -/
theorem Environment.furnished_standard (config : Config) :
    Furnished config (standard config) := by
  have h := (described_standard config).furnished
  rw [config_standard] at h
  exact h

end Formula
