import Formula.Proofs.Environment.Reachable
import Formula.Proofs.Operator.Choice
/-!
Conversions are never chained. The choice among the overloads of an operator looks up conversions
from the type of an argument to the one declared in its place, and no others; a conversion that goes
elsewhere changes nothing, whatever it could be put together with.
-/

namespace Formula

theorem mapM_congr {α β : Type} {f g : α → Option β} {xs : List α} (h : ∀ x ∈ xs, f x = g x) :
    xs.mapM f = xs.mapM g := by
  induction xs with
  | nil => rfl
  | cons x xs ih =>
    obtain ⟨hx, hxs⟩ := List.forall_mem_cons.1 h
    rw [List.mapM_cons, List.mapM_cons, hx, ih hxs]

/-! ### Conversions -/

/-- A conversion goes from the one type to the other, by name. -/
def MathCast.Leads (c : MathCast) (source target : MathType) : Prop :=
  source.name = c.source.name ∧ target.name = c.target.name

instance (c : MathCast) (source target : MathType) : Decidable (c.Leads source target) :=
  inferInstanceAs (Decidable (_ ∧ _))

namespace CastRegistry

variable {casts casts' : CastRegistry} {c : MathCast} {source target : MathType}

theorem mathCast?_registerMath (registered : casts.registerMath c = .ok casts')
    (elsewhere : ¬c.Leads source target) :
    casts'.mathCast? source target = casts.mathCast? source target := by
  obtain ⟨-, rfl⟩ := registerMath_iff.1 registered
  have other : ¬(source.name = c.source.name ∧ target.name = c.target.name) := elsewhere
  simp only [mathCast?, find?_enter, if_neg other]

/-- How one type is reached from another does not depend on conversions between others, not even on
those from the one and those to the other. -/
theorem mathCast?_foldlM {added : List MathCast}
    (registered : added.foldlM registerMath casts = .ok casts')
    (elsewhere : ∀ c ∈ added, ¬c.Leads source target) :
    casts'.mathCast? source target = casts.mathCast? source target := by
  refine Except.foldlM_induction (P := fun r => r.mathCast? source target =
    casts.mathCast? source target) registered rfl fun c hc r r' hr hstep => ?_
  exact (mathCast?_registerMath hstep (elsewhere c hc)).trans hr

end CastRegistry

/-! ### The choice of an overload -/

variable {casts casts' : CastRegistry} {arguments : List MathType} {overloads : List Overload}

/-- The overload takes as many arguments as there are, and the conversion leads from one of them to
what is declared in its place. -/
def Overload.Asks (o : Overload) (arguments : List MathType) (c : MathCast) : Prop :=
  arguments.length = o.arguments.length ∧
    ∃ (i : Nat) (source target : MathType), arguments[i]? = some source ∧
      o.arguments[i]? = some target ∧ c.Leads source target

namespace Overload

variable {o : Overload}

theorem asks_iff {c : MathCast} : o.Asks arguments c ↔
    arguments.length = o.arguments.length ∧
      ∃ p ∈ arguments.zip o.arguments, c.Leads p.1 p.2 := by
  refine and_congr_right fun _ => ?_
  constructor
  · rintro ⟨i, source, target, hsource, htarget, leads⟩
    have hpair : (arguments.zip o.arguments)[i]? = some (source, target) :=
      List.getElem?_zip_eq_some.2 ⟨hsource, htarget⟩
    exact ⟨(source, target), List.mem_of_getElem? hpair, leads⟩
  · rintro ⟨p, hp, leads⟩
    obtain ⟨i, hi⟩ := List.mem_iff_getElem?.1 hp
    obtain ⟨hsource, htarget⟩ := List.getElem?_zip_eq_some.1 hi
    exact ⟨i, p.1, p.2, hsource, htarget, leads⟩

instance (o : Overload) (arguments : List MathType) (c : MathCast) :
    Decidable (o.Asks arguments c) :=
  decidable_of_iff _ asks_iff.symm

theorem casts?_congr (agree : arguments.length = o.arguments.length →
    ∀ p ∈ arguments.zip o.arguments, casts'.mathCast? p.1 p.2 = casts.mathCast? p.1 p.2) :
    o.casts? arguments casts' = o.casts? arguments casts := by
  unfold casts?
  split
  · rename_i length
    exact mapM_congr (agree length)
  · rfl

theorem casts?_foldlM {added : List MathCast}
    (registered : added.foldlM CastRegistry.registerMath casts = .ok casts')
    (unasked : ∀ c ∈ added, ¬o.Asks arguments c) :
    o.casts? arguments casts' = o.casts? arguments casts :=
  o.casts?_congr fun length p hp => CastRegistry.mathCast?_foldlM registered
    fun c hc leads => unasked c hc (asks_iff.2 ⟨length, p, hp, leads⟩)

end Overload

namespace OperatorRegistry

theorem search_congr {best? : Option Resolution}
    (agree : ∀ o ∈ overloads, o.casts? arguments casts' = o.casts? arguments casts) :
    search arguments casts' best? overloads = search arguments casts best? overloads := by
  induction overloads generalizing best? with
  | nil => rfl
  | cons o overloads ih =>
    obtain ⟨ho, hrest⟩ := List.forall_mem_cons.1 agree
    have hchoice : resolutionOf? arguments casts' o = resolutionOf? arguments casts o := by
      rw [resolutionOf?, resolutionOf?, ho]
    simp only [search, hchoice, ih hrest]

theorem resolve_congr {registry : OperatorRegistry} {name : String}
    (agree : ∀ o ∈ registry.candidates name,
      o.casts? arguments casts' = o.casts? arguments casts) :
    registry.resolve casts' name arguments = registry.resolve casts name arguments := by
  have hbest : best? arguments casts' (registry.candidates name) =
      best? arguments casts (registry.candidates name) := search_congr agree
  unfold resolve
  split
  · rfl
  · rename_i hne
    rw [hbest]

/-- What an operator comes to on some arguments, be it a choice or an error, stays the same while
conversions are registered that no overload of the name asks for. Nor does any set of conversions
make a type reach another, or reach it in a different way, without the one that leads from the first
to the second. -/
theorem resolve_local (registry : OperatorRegistry) {added : List MathCast}
    (registered : added.foldlM CastRegistry.registerMath casts = .ok casts') :
    (∀ name arguments,
      (∀ c ∈ added, ∀ o ∈ registry.candidates name, ¬o.Asks arguments c) →
      registry.resolve casts' name arguments = registry.resolve casts name arguments) ∧
    ∀ source target, (∀ c ∈ added, ¬c.Leads source target) →
      casts'.mathCast? source target = casts.mathCast? source target := by
  refine ⟨fun name arguments unasked => ?_, fun source target elsewhere => ?_⟩
  · exact resolve_congr fun o ho =>
      o.casts?_foldlM registered fun c hc => unasked c hc o ho
  · exact CastRegistry.mathCast?_foldlM registered elsewhere

/-- Between three types in a row: the last is declared, and is not reached from the first through
the second. -/
theorem resolve_through_second :
    let first : MathType := { name := "first" }
    let second : MathType := { name := "second" }
    let third : MathType := { name := "third" }
    let added := [MathCast.between first second, MathCast.between second third]
    let registry := (({} : OperatorRegistry).register
      { name := "f", arguments := [third], result := third }).2
    ∃ casts, added.foldlM CastRegistry.registerMath {} = .ok casts ∧
      (casts.mathCast? first second).isSome ∧ (casts.mathCast? second third).isSome ∧
      (∀ c ∈ added, ¬c.Leads first third) ∧ casts.mathCast? first third = none ∧
      (∀ c ∈ added, ∀ o ∈ registry.candidates "f", ¬o.Asks [first] c) ∧
      registry.resolve casts "f" [first] = .error
        (.noViableOverload "f" ["first"] (some "candidates are f(third) -> third")) := by
  intro first second third added registry
  have elsewhere : ∀ c ∈ added, ¬c.Leads first third := by decide +kernel
  have unasked : ∀ c ∈ added, ∀ o ∈ registry.candidates "f", ¬o.Asks [first] c := by
    decide +kernel
  have registered : added.foldlM CastRegistry.registerMath {} = .ok _ := rfl
  obtain ⟨hresolve, hreached⟩ := resolve_local registry registered
  refine ⟨_, registered, by decide +kernel, by decide +kernel, elsewhere, ?_, unasked, ?_⟩
  · exact hreached first third elsewhere
  · exact hresolve "f" [first] unasked

end OperatorRegistry

end Formula
