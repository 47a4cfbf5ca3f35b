import Formula.Proofs.Environment.History
import Formula.Proofs.Library.Install
import Formula.Proofs.Library.Lawful
/-!
Where the standard environment has its types, conversions and evaluators from: each is built from
one of the descriptions of the library.
-/

namespace Formula

namespace Evaluator.Spec

/-- An evaluator is built from a description, over types of the library. -/
def Makes (s : Spec) (e : Evaluator) : Prop :=
  ∃ types, Typed types ∧ s.build types = .ok e

variable {s : Spec} {e : Evaluator} {args : List Value}

theorem Makes.names (h : s.Makes e) : e.arguments.map (·.name) = s.arguments ∧
    e.result.name = s.result ∧ Library.Built e.result ∧ ∀ c ∈ e.arguments, Library.Built c := by
  obtain ⟨types, htypes, hbuild⟩ := h
  exact names_of_build htypes hbuild

theorem Makes.call_function (h : s.Makes e) {f : Function} (given : s.function = some f) :
    e.call args = f.result args e.result.initial := by
  obtain ⟨types, -, hbuild⟩ := h
  exact Evaluator.call_function (implementation_of_function hbuild given)

theorem Makes.call_identity (h : s.Makes e) (noFunction : s.function = none)
    (asked : s.isIdentity = true) (v : Value) : e.call [v] = v := by
  have hknown := Library.known_of_built h.names.2.2.1
  obtain ⟨types, -, hbuild⟩ := h
  exact Evaluator.call_identity hknown (implementation_of_identity hbuild noFunction asked)

end Evaluator.Spec

/-- The conversion that an evaluator makes is by that evaluator. -/
theorem ConcreteCast.evaluator_of_ofEvaluator {e : Evaluator} {c : ConcreteCast}
    (h : ofEvaluator e = .ok c) : c.evaluator = e := by
  unfold ofEvaluator at h
  split at h
  · cases h
    rfl
  · cases h

/-- The evaluators of an overload that is built are built from its description. -/
theorem Overload.Spec.build_eq_ok {s : Overload.Spec} {types : TypeRegistry} {o : Overload}
    (h : s.build types = .ok o) : types.mathematical.get? s.result = some o.result ∧
      ∀ mode e, o.evaluator? mode = some e →
        ∃ p ∈ s.evaluators, p.1 = mode ∧ p.2.build types = .ok e := by
  unfold Overload.Spec.build at h
  simp only [Except.bind_eq_ok, TypeRegistry.mathType_eq_ok] at h
  obtain ⟨arguments, -, result, hresult, h⟩ := h
  refine Except.foldlM_induction (P := fun o : Overload =>
    types.mathematical.get? s.result = some o.result ∧ ∀ mode e, o.evaluator? mode = some e →
      ∃ p ∈ s.evaluators, p.1 = mode ∧ p.2.build types = .ok e) h
    ⟨hresult, fun mode e h => absurd h (Option.some_ne_none e).symm⟩ fun p hp o o' ho hstep => ?_
  obtain ⟨hresult, ho⟩ := ho
  obtain ⟨e, he, hattach⟩ := Except.bind_eq_ok.1 hstep
  obtain ⟨-, -, rfl⟩ := Overload.attach_eq_ok hattach
  refine ⟨hresult, fun mode f hf => ?_⟩
  rcases Directory.get?_insert_eq_some hf with ⟨rfl, rfl⟩ | hf
  · exact ⟨p, hp, rfl, he⟩
  · exact ho mode f hf

theorem Overload.Spec.arguments_of_build {s : Overload.Spec} {types : TypeRegistry} {o : Overload}
    (h : s.build types = .ok o) :
    o.name = s.name ∧ s.arguments.mapM types.mathType = .ok o.arguments := by
  unfold Overload.Spec.build at h
  simp only [Except.bind_eq_ok] at h
  obtain ⟨arguments, harguments, result, -, h⟩ := h
  refine Except.foldlM_induction (P := fun o : Overload =>
    o.name = s.name ∧ s.arguments.mapM types.mathType = .ok o.arguments) h ⟨rfl, harguments⟩
    fun p _ o o' ho hstep => ?_
  obtain ⟨e, -, hattach⟩ := Except.bind_eq_ok.1 hstep
  obtain ⟨-, -, rfl⟩ := Overload.attach_eq_ok hattach
  exact ho

namespace Library

open Registration Evaluator

/-- A mathematical type has the representations that are listed for one of the library. -/
def Listed (t : MathType) : Prop :=
  ∃ p ∈ mathTypes, ∀ mode c, t.representation? mode = some c → Built c ∧ (mode, c.name) ∈ p.2

/-- An environment whose types, conversions and overloads are all described in the library. -/
structure Described (env : Environment) : Prop where
  concrete : Spec.Typed env.types
  mathematical : ∀ name t, env.types.mathematical.get? name = some t → Listed t
  conversions : ∀ source target c, CastRegistry.find? env.casts.concrete source target = some c →
    c.source.name = source ∧ c.target.name = target ∧ ∃ s ∈ concreteCasts, s.Makes c.evaluator
  overloads : ∀ name, ∀ o ∈ env.operators.candidates name, Listed o.result ∧
    ∀ mode e, o.evaluator? mode = some e →
      ∃ s ∈ overloads, ∃ p ∈ s.evaluators, p.1 = mode ∧ p.2.Makes e

namespace Described

theorem empty (config : Config) : Described { config } :=
  ⟨fun _ _ h => (nomatch h), fun _ _ h => (nomatch h), fun _ _ _ h => (nomatch h),
    fun _ _ h => (nomatch h)⟩

/-! ### Types -/

theorem keeps_buildConcreteType {p : ConcreteType.Parts} (hp : p ∈ concreteTypes) :
    (buildConcreteType p).Keeps Described Built := by
  refine Registration.keeps_buildConcreteType fun env c henv hc => ⟨?_, p, hp, _, hc⟩
  exact ⟨henv.concrete, henv.mathematical, henv.conversions, henv.overloads⟩

theorem keeps_registerConcreteType {c : ConcreteType} (hc : Built c) :
    (registerConcreteType c).Keeps Described fun _ => True := by
  refine Registration.keeps_registerConcreteType fun env d types henv htypes => ?_
  rcases TypeRegistry.registerConcrete_cases htypes with ⟨-, rfl⟩ | ⟨-, rfl, rfl⟩
  · exact henv
  · refine ⟨fun name d hd => ?_, henv.mathematical, henv.conversions, henv.overloads⟩
    rcases Directory.get?_insert_eq_some hd with ⟨rfl, rfl⟩ | hd
    · exact ⟨rfl, hc⟩
    · exact henv.concrete name d hd

/-- A type that is defined by names of representations takes them from the registered types. -/
theorem listed_of_foldlM {p : String × List (Mode × String)} (hp : p ∈ mathTypes)
    {types : TypeRegistry} (htypes : Spec.Typed types) {t : MathType}
    (h : p.2.foldlM (fun (t : MathType) e => do
      pure (t.represent e.1 (← types.concreteType e.2))) { name := p.1 } = .ok t) : Listed t := by
  refine ⟨p, hp, Except.foldlM_induction (P := fun t : MathType => ∀ mode c,
    t.representation? mode = some c → Built c ∧ (mode, c.name) ∈ p.2) h (fun _ _ h => (nomatch h))
    fun r hr u u' hu hstep => ?_⟩
  simp only [Except.bind_eq_ok, Except.pure_eq_ok, TypeRegistry.concreteType_eq_ok] at hstep
  obtain ⟨c, hc, rfl⟩ := hstep
  intro mode d hd
  rcases Directory.get?_insert_eq_some hd with ⟨rfl, rfl⟩ | hd
  · obtain ⟨hname, hbuilt⟩ := htypes _ _ hc
    exact ⟨hbuilt, hname ▸ hr⟩
  · exact hu mode d hd

theorem keeps_defineMathType {p : String × List (Mode × String)} (hp : p ∈ mathTypes) :
    (defineMathType p.1 p.2).Keeps Described fun _ => True := by
  refine Registration.keeps_defineMathType fun env u types henv htypes => ?_
  obtain ⟨t, hfold, hregister⟩ := Except.bind_eq_ok.1 htypes
  rcases TypeRegistry.registerMath_cases hregister with ⟨-, rfl⟩ | ⟨-, -, rfl, rfl⟩
  · exact henv
  · refine ⟨henv.concrete, fun name v hv => ?_, henv.conversions, henv.overloads⟩
    rcases Directory.get?_insert_eq_some hv with ⟨rfl, rfl⟩ | hv
    · exact listed_of_foldlM hp henv.concrete hfold
    · exact henv.mathematical name v hv

/-! ### Conversions -/

theorem keeps_defineMathCast (source target : String) :
    (defineMathCast source target).Keeps Described fun _ => True := by
  refine Registration.keeps_defineMathCast fun c => ?_
  refine Registration.keeps_registerMathCast fun env casts henv hcasts => ?_
  obtain ⟨-, rfl⟩ := CastRegistry.registerMath_iff.1 hcasts
  exact ⟨henv.concrete, henv.mathematical, henv.conversions, henv.overloads⟩

theorem keeps_defineConcreteCast {s : Spec} (hs : s ∈ concreteCasts) :
    (defineConcreteCast s).Keeps Described fun _ => True := by
  refine Registration.keeps_defineConcreteCast fun env e henv he => ?_
  have hmakes : s.Makes e := ⟨env.types, henv.concrete, he⟩
  refine Registration.keeps_registerConcreteCast fun env' c casts henv' hc hcasts => ?_
  obtain rfl := ConcreteCast.evaluator_of_ofEvaluator hc
  obtain ⟨-, rfl⟩ := CastRegistry.registerConcrete_iff.1 hcasts
  refine ⟨henv'.concrete, henv'.mathematical, fun source target d hd => ?_, henv'.overloads⟩
  rcases CastRegistry.find?_enter_eq_some hd with ⟨rfl, rfl, rfl⟩ | hd
  · exact ⟨rfl, rfl, s, hs, hmakes⟩
  · exact henv'.conversions source target d hd

/-! ### Overloads -/

theorem keeps_defineOverload {s : Overload.Spec} (hs : s ∈ Library.overloads) :
    (defineOverload s).Keeps Described fun _ => True := by
  refine Registration.keeps_defineOverload fun env o henv ho => ?_
  obtain ⟨hresult, hevaluators⟩ := Overload.Spec.build_eq_ok ho
  refine Registration.keeps_registerOverload fun env' henv' => ?_
  refine ⟨henv'.concrete, henv'.mathematical, henv'.conversions, fun name q hq => ?_⟩
  rcases OperatorRegistry.mem_candidates_register hq with hq | ⟨rank, rfl⟩
  · exact henv'.overloads name q hq
  · refine ⟨henv.mathematical _ _ hresult, fun mode e he => ?_⟩
    obtain ⟨p, hp, hmode, hbuild⟩ := hevaluators mode e he
    exact ⟨s, hs, p, hp, hmode, env.types, henv.concrete, hbuild⟩

end Described

end Library

open Library in
/-- All that the standard environment knows is described in the library. -/
theorem Environment.described_standard (config : Config) : Described (standard config) :=
  standard_of_keeps
    (fun _ => Described.keeps_buildConcreteType)
    (fun _ => Described.keeps_registerConcreteType)
    (fun _ => Described.keeps_defineMathType)
    (fun _ _ => Described.keeps_defineMathCast _ _)
    (fun _ => Described.keeps_defineConcreteCast)
    (fun _ => Described.keeps_defineOverload)
    (.empty config)

/-! ### Overloads from whole descriptions -/

/-- An overload is built from a description, over types of the library, and given a rank. -/
def Overload.Spec.Makes (s : Overload.Spec) (o : Overload) : Prop :=
  ∃ (env : Environment) (p : Overload), env.Reachable ∧ Library.Described env ∧
    s.build env.types = .ok p ∧ ∃ rank, o = { p with rank }

namespace Overload.Spec

variable {s : Overload.Spec} {o : Overload}

theorem Makes.names (h : s.Makes o) :
    o.name = s.name ∧ o.arguments.map (·.name) = s.arguments := by
  obtain ⟨env, p, reachable, -, hbuild, rank, rfl⟩ := h
  obtain ⟨hname, harguments⟩ := arguments_of_build hbuild
  refine ⟨hname, ?_⟩
  have hnames : List.Forall₂ (fun n (t : MathType) => n = t.name) s.arguments p.arguments :=
    (Except.mapM_eq_ok.1 harguments).imp fun n t ht =>
      (reachable.consistent.mathematical n t (TypeRegistry.mathType_eq_ok.1 ht)).1.symm
  exact (List.forall₂_eq_eq_eq ▸ List.forall₂_map_right_iff.2 hnames : _ = _).symm

theorem Makes.evaluator (h : s.Makes o) {mode : Mode} {e : Evaluator}
    (found : o.evaluator? mode = some e) : ∃ p ∈ s.evaluators, p.1 = mode ∧ p.2.Makes e := by
  obtain ⟨env, p, -, described, hbuild, rank, rfl⟩ := h
  obtain ⟨q, hq, hmode, he⟩ := (build_eq_ok hbuild).2 mode e found
  exact ⟨q, hq, hmode, env.types, described.concrete, he⟩

end Overload.Spec

namespace Library

open Registration

/-- A described environment whose overloads are all made from descriptions of the library. -/
def Composed (env : Environment) : Prop :=
  (env.Reachable ∧ Described env) ∧
    ∀ name, ∀ o ∈ env.operators.candidates name, ∃ s ∈ overloads, s.Makes o

/-- What enters no overload need not look at them. -/
theorem keeps_composed {α : Type} {m : Registration α} {tag : α → Entry} {Q : α → Prop}
    (reachable : m.Keeps Environment.Reachable fun _ => True) (described : m.Keeps Described Q)
    (accounted : Accounted tag m) (other : ∀ x, (tag x).overload? = none) :
    m.Keeps Composed Q := by
  rintro env ⟨⟨hreachable, hdescribed⟩, hmade⟩
  obtain ⟨hreachable', -⟩ := reachable env hreachable
  obtain ⟨hdescribed', hQ⟩ := described env hdescribed
  refine ⟨⟨⟨hreachable', hdescribed'⟩, fun name o ho => hmade name o ?_⟩, hQ⟩
  rcases accounted env with ⟨err, hrun⟩ | ⟨x, env', hrun, henters⟩
  · rwa [hrun] at ho
  · rw [hrun, henters.candidates, other x] at ho
    simpa using ho

theorem composed_defineOverload {s : Overload.Spec} (hs : s ∈ overloads) :
    (defineOverload s).Keeps Composed fun _ => True := by
  rintro env ⟨⟨hreachable, hdescribed⟩, hmade⟩
  have hreachable' := Environment.keeps_reachable (r := .defineOverload s) rfl env hreachable
  have hdescribed' := Described.keeps_defineOverload hs env hdescribed
  refine ⟨⟨⟨hreachable'.1, hdescribed'.1⟩, ?_⟩, fun _ _ => trivial⟩
  have hkeeps : (defineOverload s).Keeps (fun env' => env'.types = env.types ∧
      ∀ name, ∀ o ∈ env'.operators.candidates name, ∃ s ∈ overloads, s.Makes o)
      fun _ => True := by
    refine Registration.keeps_defineOverload fun env₁ o henv₁ ho => ?_
    refine Registration.keeps_registerOverload fun env₂ henv₂ => ⟨henv₂.1, fun name q hq => ?_⟩
    rcases OperatorRegistry.mem_candidates_register hq with hq | ⟨rank, rfl⟩
    · exact henv₂.2 name q hq
    · exact ⟨s, hs, env, o, hreachable, hdescribed, henv₁.1 ▸ ho, rank, rfl⟩
  exact (hkeeps env ⟨rfl, hmade⟩).1.2

end Library

open Library Registration in
/-- Every overload of the standard environment is made from a description of the library. -/
theorem Environment.made_standard (config : Config) {name : String} {o : Overload}
    (candidate : o ∈ (standard config).operators.candidates name) :
    ∃ s ∈ Library.overloads, s.Makes o := by
  have hcomposed : Composed (standard config) := by
    refine standard_of_keeps
      (fun p hp => keeps_composed (keeps_reachable (r := .buildConcreteType p) rfl)
        (Described.keeps_buildConcreteType hp) (accounted_buildConcreteType p) fun _ => rfl)
      (fun c hc => keeps_composed (keeps_reachable (r := .concreteType c) rfl)
        (Described.keeps_registerConcreteType hc) (accounted_registerConcreteType c) fun _ => rfl)
      (fun t ht => keeps_composed (keeps_reachable (r := .defineMathType t.1 t.2) rfl)
        (Described.keeps_defineMathType ht) (accounted_defineMathType t.1 t.2) fun _ => rfl)
      (fun c _ => keeps_composed (keeps_reachable (r := .defineMathCast c.1 c.2) rfl)
        (Described.keeps_defineMathCast c.1 c.2) (accounted_defineMathCast c.1 c.2) fun _ => rfl)
      (fun s hs => keeps_composed (keeps_reachable (r := .defineConcreteCast s) rfl)
        (Described.keeps_defineConcreteCast hs) (accounted_defineConcreteCast s) fun _ => rfl)
      (fun s hs => composed_defineOverload hs)
      ⟨⟨.empty config, .empty config⟩, fun _ _ h => nomatch h⟩
  exact hcomposed.2 name o candidate

end Formula
