import Formula.Proofs.Library.IntegerRanges
/-!
The two checks of a value against a type of the standard library: whether the type accepts it, and
what the type complains of. A range of integers is checked by equalities of the fractional parts of
its ends in the one and by their differences in the other; both are decided alike, whatever the bits
of the ends are.
-/

namespace Formula

open Registration

namespace Interval

/-- The range is undefined or has integers for both ends. -/
def IntegerEnds (a : Interval Double) : Prop :=
  a.isDefined = true →
    (Endpoint.toInt? a.lo).isSome = true ∧ (Endpoint.toInt? a.hi).isSome = true

theorem integerEnds_iff {a : Interval Double} : a.IntegerEnds ↔ a.WholeEnds ∧ ¬a.Unbounded := by
  simp only [IntegerEnds, WholeEnds, Unbounded, Double.isSome_toInt?_iff]
  cases a.isDefined with
  | false => simp
  | true => simp [and_and_and_comm]

end Interval

/-! ### Registrations -/

namespace Library

/-- All concrete types of an environment are of the library, or were known before. -/
def AddsBuilt (before env : Environment) : Prop :=
  ∀ name c, env.types.concrete.get? name = some c →
    before.types.concrete.get? name = some c ∨ Built c

namespace AddsBuilt

variable {before : Environment}

/-- What is no concrete type changes nothing among them. -/
theorem keeps_other {α : Type} {m : Registration α} {tag : α → Entry}
    (accounted : Accounted tag m) (other : ∀ x, (tag x).concreteType? = none) :
    m.Keeps (AddsBuilt before) fun _ => True := by
  refine keeps_of_accounted accounted fun x henters h name c hc => h name c ?_
  rwa [henters.concrete_get?, other, Option.filter_none, Option.or_none] at hc

theorem keeps_buildConcreteType {p : ConcreteType.Parts} (hp : p ∈ concreteTypes) :
    (buildConcreteType p).Keeps (AddsBuilt before) Built :=
  Registration.keeps_buildConcreteType fun _ _ h hc => ⟨h, p, hp, _, hc⟩

theorem keeps_registerConcreteType {c : ConcreteType} (hc : Built c) :
    (registerConcreteType c).Keeps (AddsBuilt before) fun _ => True := by
  refine Registration.keeps_registerConcreteType fun env d types h htypes name u hu => ?_
  rcases TypeRegistry.registerConcrete_cases htypes with ⟨-, rfl⟩ | ⟨-, rfl, rfl⟩
  · exact h name u hu
  · rcases Directory.get?_insert_eq_some hu with ⟨rfl, rfl⟩ | hu
    · exact .inr hc
    · exact h name u hu

/-- The registration of the library adds its own concrete types only, even if it fails. -/
theorem of_install (before : Environment) : AddsBuilt before (install.run before).2 := by
  have hkeeps : install.Keeps (AddsBuilt before) fun _ => True :=
    keeps_install (fun _ => keeps_buildConcreteType) (fun _ => keeps_registerConcreteType)
      (fun t _ => keeps_other (accounted_defineMathType t.1 t.2) fun _ => rfl)
      (fun c _ => keeps_other (accounted_defineMathCast c.1 c.2) fun _ => rfl)
      (fun s _ => keeps_other (accounted_defineConcreteCast s) fun _ => rfl)
      (fun s _ => keeps_other (accounted_defineOverload s) fun _ => rfl)
  exact (hkeeps before fun _ _ h => .inl h).1

end AddsBuilt

/-! ### Checks -/

theorem Built.accepts_iff_integerEnds {c : ConcreteType} (hc : Built c) (v : Value) :
    c.accepts v = true ↔
      Belongs c.name v ∧ (c.name = "interval_int" → v.toInterval.IntegerEnds) := by
  rw [hc.accepts_iff]
  constructor
  · rintro ⟨⟨hbelongs, hends⟩, hbounded⟩
    exact ⟨hbelongs, fun hname =>
      Interval.integerEnds_iff.2 ⟨hends hname, fun h => hbounded ⟨hname, h⟩⟩⟩
  · rintro ⟨hbelongs, hends⟩
    exact ⟨⟨hbelongs, fun hname => (Interval.integerEnds_iff.1 (hends hname)).1⟩,
      fun h => (Interval.integerEnds_iff.1 (hends h.1)).2 h.2⟩

/-- A type complains of the values that it does not accept, and of no others. It accepts those of
its kind, but of the ranges, where integers are asked for, only those that are undefined or have
integers for both ends. -/
structure Checked (c : ConcreteType) : Prop where
  agree : ∀ v, c.complaint v = none ↔ c.accepts v = true
  accepted : ∀ v, c.accepts v = true ↔
    Belongs c.name v ∧ (c.name = "interval_int" → v.toInterval.IntegerEnds)

theorem Built.checked {c : ConcreteType} (hc : Built c) : Checked c :=
  ⟨fun _ => hc.complaint_eq_none, hc.accepts_iff_integerEnds⟩

/-- The registration of the library succeeds where nothing is known, and the seven types are known
then. -/
theorem concreteTypes_standard (config : Config) : (install.run { config }).1.isOk = true ∧
    (Environment.standard config).types.concrete.names =
      ["bool", "complex", "int", "interval_bool", "interval_int", "interval_real", "real"] := by
  have hplain : (install.run {}).1.isOk = true ∧ (Environment.standard {}).types.concrete.names =
      ["bool", "complex", "int", "interval_bool", "interval_int", "interval_real", "real"] := by
    decide +kernel
  rw [Environment.types_standard, indifferent_install.result_of_settings config]
  exact hplain

/-- Whatever is known before, the checks of every type that the registration of the library adds to
it agree; where nothing is known these are the seven types of the library. -/
theorem checks_agree :
    (∀ {env : Environment} {name : String} {c : ConcreteType},
      (install.run env).2.types.concrete.get? name = some c →
      env.types.concrete.get? name ≠ some c → Checked c) ∧
    ∀ config, (install.run { config }).1.isOk = true ∧
      (Environment.standard config).types.concrete.names =
        ["bool", "complex", "int", "interval_bool", "interval_int", "interval_real", "real"] := by
  refine ⟨fun {env name c} known new => Built.checked ?_, concreteTypes_standard⟩
  exact (AddsBuilt.of_install env name c known).resolve_left new

/-- A range with an end that is no number is refused with a complaint if any flag is set, and
accepted without one if none is. -/
theorem checks_of_no_number : ∃ c,
    (install.run {}).2.types.concrete.get? "interval_int" = some c ∧
    c.accepts (.interval ⟨.notNumber true, 1, Info.everywhere⟩) = false ∧
    c.complaint (.interval ⟨.notNumber true, 1, Info.everywhere⟩) ≠ none ∧
    c.accepts (.interval ⟨.notNumber true, 1, 0⟩) = true ∧
    c.complaint (.interval ⟨.notNumber true, 1, 0⟩) = none := by
  have hchecked : ((install.run {}).2.types.concrete.get? "interval_int").map (fun c =>
      (c.accepts (.interval ⟨.notNumber true, 1, Info.everywhere⟩),
        c.accepts (.interval ⟨.notNumber true, 1, 0⟩))) = some (false, true) := by
    decide +kernel
  obtain ⟨c, known, haccepts⟩ := Option.map_eq_some_iff.1 hchecked
  obtain ⟨hrefused, haccepted⟩ := Prod.mk.inj haccepts
  have hagree := (checks_agree.1 known (Option.some_ne_none c).symm).agree
  refine ⟨c, known, hrefused, fun h => ?_, haccepted, (hagree _).2 haccepted⟩
  rw [(hagree _).1 h] at hrefused
  cases hrefused

end Library

end Formula
