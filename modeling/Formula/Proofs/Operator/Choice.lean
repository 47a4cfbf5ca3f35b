import Formula.Operator.Registry
import Mathlib.Data.List.Forall2
/-!
The choice among the overloads of an operator. Of those that all arguments reach, each by at most
one conversion, it is the first among the ones that need the fewest conversions, wherever that
stands among the others.
-/

namespace Formula

theorem mapM_eq_some {α β : Type} {f : α → Option β} {xs : List α} {ys : List β} :
    xs.mapM f = some ys ↔ List.Forall₂ (fun x y => f x = some y) xs ys := by
  induction xs generalizing ys with
  | nil => simp [eq_comm]
  | cons x xs ih =>
    simp only [List.mapM_cons, Option.bind_eq_bind, Option.bind_eq_some_iff, Option.pure_def,
      Option.some.injEq, List.forall₂_cons_left_iff, ih]
    grind

/-- How an argument of one type can stand where another is declared: as it is if both have one name,
and else by the conversion entered for the two. -/
inductive CastRegistry.Reaches (casts : CastRegistry) (source target : MathType) :
    Cast MathCast → Prop where
  | same (named : source.name = target.name) : casts.Reaches source target .identity
  | converted {c : MathCast} (apart : source.name ≠ target.name)
      (entered : find? casts.mathematical source.name target.name = some c) :
      casts.Reaches source target (.convert c)

theorem CastRegistry.mathCast?_eq_some {casts : CastRegistry} {source target : MathType}
    {c : Cast MathCast} :
    casts.mathCast? source target = some c ↔ casts.Reaches source target c := by
  unfold mathCast?
  constructor
  · intro h
    split at h
    · rename_i named
      cases h
      exact .same named
    · rename_i apart
      obtain ⟨c, entered, rfl⟩ := Option.map_eq_some_iff.1 h
      exact .converted apart entered
  · rintro (named | ⟨apart, entered⟩)
    · rw [if_pos named]
    · rw [if_neg apart, entered]
      rfl

namespace Overload

variable {o : Overload} {casts : CastRegistry} {arguments : List MathType}
  {cs : List (Cast MathCast)}

/-- There are as many arguments as the overload declares, and each reaches what is declared in its
place by the cast that stands there. -/
def ReachedBy (o : Overload) (casts : CastRegistry) (arguments : List MathType)
    (cs : List (Cast MathCast)) : Prop :=
  arguments.length = o.arguments.length ∧
    List.Forall₂ (fun p c => casts.Reaches p.1 p.2 c) (arguments.zip o.arguments) cs

theorem casts?_eq_some : o.casts? arguments casts = some cs ↔ o.ReachedBy casts arguments cs := by
  unfold casts? ReachedBy
  split
  · rename_i length
    simp only [mapM_eq_some, CastRegistry.mathCast?_eq_some, length, true_and]
  · rename_i length
    simp [length]

/-- The casts are looked up, so there is one list of them at most. -/
theorem ReachedBy.unique {cs' : List (Cast MathCast)} (h : o.ReachedBy casts arguments cs)
    (h' : o.ReachedBy casts arguments cs') : cs = cs' :=
  Option.some.inj ((casts?_eq_some.2 h).symm.trans (casts?_eq_some.2 h'))

theorem length_eq_of_casts? (h : o.casts? arguments casts = some cs) :
    arguments.length = o.arguments.length :=
  (casts?_eq_some.1 h).1

/-- An overload is reached without a conversion if and only if it declares types of the names that
the arguments have. -/
theorem reachedBy_identities (casts : CastRegistry) :
    (∃ cs, o.ReachedBy casts arguments cs ∧ Cast.distance cs = 0) ↔
      o.arguments.map (·.name) = arguments.map (·.name) := by
  unfold ReachedBy
  generalize o.arguments = declared
  induction arguments generalizing declared with
  | nil => cases declared <;> simp [Cast.distance]
  | cons u arguments ih =>
    cases declared with
    | nil => simp
    | cons t declared =>
      rw [List.map_cons, List.map_cons, List.cons.injEq, ← ih]
      constructor
      · rintro ⟨cs, ⟨length, reached⟩, zero⟩
        obtain ⟨c, cs, hc, hcs, rfl⟩ := List.forall₂_cons_left_iff.1 reached
        cases hc with
        | same named =>
          refine ⟨named.symm, cs, ⟨Nat.succ.inj length, hcs⟩, ?_⟩
          simpa [Cast.distance, Cast.isIdentity] using zero
        | converted => simp [Cast.distance, Cast.isIdentity] at zero
      · rintro ⟨named, cs, ⟨length, reached⟩, zero⟩
        refine ⟨.identity :: cs, ⟨congrArg (· + 1) length, .cons (.same named.symm) reached⟩, ?_⟩
        simpa [Cast.distance, Cast.isIdentity] using zero

/-- An overload is reached if each argument is. -/
theorem reached_of_casts? (h : o.casts? arguments casts = some cs) :
    List.Forall₂ (fun u t => (casts.mathCast? u t).isSome) arguments o.arguments := by
  obtain ⟨length, reached⟩ := casts?_eq_some.1 h
  rw [List.forall₂_iff_zip]
  refine ⟨length, fun {u t} hpair => ?_⟩
  obtain ⟨i, hi, hpair⟩ := List.mem_iff_getElem.1 hpair
  have hcast := (List.forall₂_iff_get.1 reached).2 i hi
    ((List.forall₂_iff_get.1 reached).1 ▸ hi)
  rw [List.get_eq_getElem, hpair, ← CastRegistry.mathCast?_eq_some] at hcast
  exact Option.isSome_of_eq_some hcast

end Overload

namespace OperatorRegistry

variable {arguments : List MathType} {casts : CastRegistry} {overloads : List Overload}
  {r s : Resolution}

theorem resolutionOf?_eq_some {o : Overload} : resolutionOf? arguments casts o = some r ↔
    r.overload = o ∧ o.ReachedBy casts arguments r.casts ∧ r.distance = Cast.distance r.casts := by
  rw [resolutionOf?, Option.map_eq_some_iff]
  constructor
  · rintro ⟨cs, hcs, rfl⟩
    exact ⟨rfl, Overload.casts?_eq_some.1 hcs, rfl⟩
  · rintro ⟨rfl, reached, counted⟩
    refine ⟨r.casts, Overload.casts?_eq_some.2 reached, ?_⟩
    rw [← counted]

theorem resolutionOf?_eq_none {o : Overload} : resolutionOf? arguments casts o = none ↔
    ∀ cs, ¬o.ReachedBy casts arguments cs := by
  rw [resolutionOf?, Option.map_eq_none_iff, Option.eq_none_iff_forall_ne_some]
  simp only [ne_eq, Overload.casts?_eq_some]

/-- Among some overloads, one is reached with fewer conversions than any before it and with no more
than any behind it. -/
structure Chosen (casts : CastRegistry) (arguments : List MathType) (overloads : List Overload)
    (r : Resolution) : Prop where
  reached : r.overload.ReachedBy casts arguments r.casts
  counted : r.distance = Cast.distance r.casts
  first : ∃ before after, overloads = before ++ r.overload :: after ∧
    (∀ o ∈ before, ∀ cs, o.ReachedBy casts arguments cs → r.distance < Cast.distance cs) ∧
    ∀ o ∈ after, ∀ cs, o.ReachedBy casts arguments cs → r.distance ≤ Cast.distance cs

namespace Chosen

theorem mem (h : Chosen casts arguments overloads r) : r.overload ∈ overloads := by
  obtain ⟨before, after, rfl, -⟩ := h.first
  exact List.mem_append_right _ List.mem_cons_self

theorem le (h : Chosen casts arguments overloads r) {o : Overload} (ho : o ∈ overloads)
    {cs : List (Cast MathCast)} (reached : o.ReachedBy casts arguments cs) :
    r.distance ≤ Cast.distance cs := by
  obtain ⟨before, after, rfl, hbefore, hafter⟩ := h.first
  rcases List.mem_append.1 ho with ho | ho
  · exact Nat.le_of_lt (hbefore o ho cs reached)
  · rcases List.mem_cons.1 ho with rfl | ho
    · exact Nat.le_of_eq (h.counted.trans (congrArg _ (h.reached.unique reached)))
    · exact hafter o ho cs reached

/-- What is reached with more conversions may stand in front. -/
theorem cons {o : Overload} (h : Chosen casts arguments overloads r)
    (more : ∀ cs, o.ReachedBy casts arguments cs → r.distance < Cast.distance cs) :
    Chosen casts arguments (o :: overloads) r := by
  obtain ⟨before, after, rfl, hbefore, hafter⟩ := h.first
  exact ⟨h.reached, h.counted, o :: before, after, rfl, List.forall_mem_cons.2 ⟨more, hbefore⟩,
    hafter⟩

theorem eq_of_overload_eq (h : Chosen casts arguments overloads r)
    (h' : Chosen casts arguments overloads s) (same : r.overload = s.overload) : r = s := by
  have hcasts : r.casts = s.casts := h.reached.unique (same ▸ h'.reached)
  have hdistance : r.distance = s.distance := by rw [h.counted, h'.counted, hcasts]
  cases r
  cases s
  cases same
  cases hcasts
  cases hdistance
  rfl

/-- Of two overloads, the one in front would be reached with fewer conversions and with no fewer. -/
theorem unique (h : Chosen casts arguments overloads r) (h' : Chosen casts arguments overloads s) :
    r = s := by
  obtain ⟨before, after, hoverloads, hbefore, hafter⟩ := h.first
  obtain ⟨before', after', hoverloads', hbefore', hafter'⟩ := h'.first
  have hr := h.counted
  have hs := h'.counted
  rcases List.append_eq_append_iff.1 (hoverloads.symm.trans hoverloads') with
    ⟨between, rfl, hrest⟩ | ⟨between, rfl, hrest⟩
  · rcases List.cons_eq_append_iff.1 hrest with ⟨rfl, heq⟩ | ⟨between, rfl, rfl⟩
    · exact h.eq_of_overload_eq h' (List.cons.inj heq).1.symm
    · have hless := hbefore' r.overload (by simp) r.casts h.reached
      have hle := hafter s.overload (by simp) s.casts h'.reached
      omega
  · rcases List.cons_eq_append_iff.1 hrest with ⟨rfl, heq⟩ | ⟨between, rfl, rfl⟩
    · exact h.eq_of_overload_eq h' (List.cons.inj heq).1
    · have hless := hbefore s.overload (by simp) s.casts h'.reached
      have hle := hafter' r.overload (by simp) r.casts h.reached
      omega

end Chosen

theorem standsAgainst_iff {best? : Option Resolution} :
    standsAgainst best? r = true ↔ ∃ b ∈ best?, b.distance ≤ r.distance := by
  simp [standsAgainst, Option.any_eq_true]

/-- What a search ends with is the best choice so far, if no overload is reached with fewer
conversions, and else the choice among the overloads. -/
theorem search_eq_some {best? : Option Resolution}
    (h : search arguments casts best? overloads = some r) :
    (best? = some r ∧ ∀ o ∈ overloads, ∀ cs, o.ReachedBy casts arguments cs →
      r.distance ≤ Cast.distance cs) ∨
    (Chosen casts arguments overloads r ∧ ∀ b ∈ best?, r.distance < b.distance) := by
  induction overloads generalizing best? with
  | nil => exact .inl ⟨h, by simp⟩
  | cons o overloads ih =>
    rw [search] at h
    split at h
    · rename_i unreached
      rw [resolutionOf?_eq_none] at unreached
      rcases ih h with ⟨hbest, hleast⟩ | ⟨chosen, hbest⟩
      · exact .inl ⟨hbest, List.forall_mem_cons.2 ⟨fun cs hcs => (unreached cs hcs).elim, hleast⟩⟩
      · exact .inr ⟨chosen.cons fun cs hcs => (unreached cs hcs).elim, hbest⟩
    · rename_i new hnew
      obtain ⟨rfl, reached, counted⟩ := resolutionOf?_eq_some.1 hnew
      -- the casts of the overload are looked up, so that it has one distance only
      have hdistance : ∀ cs, new.overload.ReachedBy casts arguments cs →
          Cast.distance cs = new.distance := by
        intro cs hcs
        rw [counted, reached.unique hcs]
      split at h
      · rename_i stands
        obtain ⟨b, rfl, hb⟩ := standsAgainst_iff.1 stands
        rcases ih h with ⟨hbest, hleast⟩ | ⟨chosen, hbest⟩
        · cases hbest
          exact .inl ⟨rfl, List.forall_mem_cons.2 ⟨fun cs hcs => hdistance cs hcs ▸ hb, hleast⟩⟩
        · have hless := hbest b rfl
          exact .inr
            ⟨chosen.cons fun cs hcs => hdistance cs hcs ▸ Nat.lt_of_lt_of_le hless hb, hbest⟩
      · rename_i falls
        have hfewer : ∀ b ∈ best?, new.distance < b.distance := fun b hb =>
          Nat.lt_of_not_le fun hle => falls (standsAgainst_iff.2 ⟨b, hb, hle⟩)
        split at h
        · rename_i hzero
          cases h
          exact .inr ⟨⟨reached, counted, [], overloads, rfl, by simp,
            fun _ _ _ _ => hzero ▸ Nat.zero_le _⟩, hfewer⟩
        · rcases ih h with ⟨hbest, hleast⟩ | ⟨chosen, hbest⟩
          · cases hbest
            exact .inr ⟨⟨reached, counted, [], overloads, rfl, by simp, hleast⟩, hfewer⟩
          · have hless := hbest new rfl
            exact .inr ⟨chosen.cons fun cs hcs => hdistance cs hcs ▸ hless,
              fun b hb => Nat.lt_trans hless (hfewer b hb)⟩

theorem search_eq_none {best? : Option Resolution} :
    search arguments casts best? overloads = none ↔
      best? = none ∧ ∀ o ∈ overloads, ∀ cs, ¬o.ReachedBy casts arguments cs := by
  induction overloads generalizing best? with
  | nil => simp [search]
  | cons o overloads ih =>
    rw [search, List.forall_mem_cons]
    split
    · rename_i unreached
      rw [resolutionOf?_eq_none] at unreached
      rw [ih, and_iff_right unreached]
    · rename_i new hnew
      have hreached : ¬∀ cs, ¬o.ReachedBy casts arguments cs := by
        rw [← resolutionOf?_eq_none, hnew]
        exact Option.some_ne_none new
      rw [iff_false_right fun h => hreached h.2.1]
      split
      · rename_i stands
        obtain ⟨b, rfl, -⟩ := standsAgainst_iff.1 stands
        simp [ih]
      · split <;> simp [ih]

theorem best?_eq_none : best? arguments casts overloads = none ↔
    ∀ o ∈ overloads, ∀ cs, ¬o.ReachedBy casts arguments cs := by
  rw [best?, search_eq_none, and_iff_right rfl]

theorem best?_eq_some : best? arguments casts overloads = some r ↔
    Chosen casts arguments overloads r := by
  constructor
  · intro h
    exact ((search_eq_some h).resolve_left (by simp)).1
  · intro chosen
    cases h : best? arguments casts overloads with
    | none => exact (best?_eq_none.1 h _ chosen.mem _ chosen.reached).elim
    | some s =>
      have hs := ((search_eq_some h).resolve_left (by simp)).1
      rw [chosen.unique hs]

theorem exists_chosen : (∃ r, Chosen casts arguments overloads r) ↔
    ∃ o ∈ overloads, ∃ cs, o.ReachedBy casts arguments cs := by
  simp only [← best?_eq_some, ← Option.ne_none_iff_exists', ne_eq, best?_eq_none, not_forall,
    not_not, exists_prop]

theorem resolve_eq_ok_iff {registry : OperatorRegistry} {name : String} :
    registry.resolve casts name arguments = .ok r ↔
      Chosen casts arguments (registry.candidates name) r := by
  rw [← best?_eq_some, resolve]
  split
  · rename_i hnone
    simp [hnone, best?, search]
  · split <;> simp_all

theorem resolve_eq_ok {registry : OperatorRegistry} {name : String}
    (h : registry.resolve casts name arguments = .ok r) :
    r.overload ∈ registry.candidates name ∧
      r.overload.casts? arguments casts = some r.casts := by
  have chosen := resolve_eq_ok_iff.1 h
  exact ⟨chosen.mem, Overload.casts?_eq_some.2 chosen.reached⟩

theorem resolve_eq_unknownOperator {registry : OperatorRegistry} {name : String} :
    (∃ n help, registry.resolve casts name arguments = .error (.unknownOperator n help)) ↔
      registry.candidates name = [] := by
  rw [resolve]
  split
  · simp_all
  · split <;> simp_all

theorem resolve_eq_noViableOverload {registry : OperatorRegistry} {name : String} :
    (∃ n types help, registry.resolve casts name arguments =
        .error (.noViableOverload n types help)) ↔
      registry.candidates name ≠ [] ∧
        ∀ o ∈ registry.candidates name, ∀ cs, ¬o.ReachedBy casts arguments cs := by
  rw [← best?_eq_none, resolve]
  split
  · simp_all
  · split <;> simp_all

/-- An operator without overloads is unknown, one of which no overload is reached is not viable, and
in any other case the choice is the first of those that are reached with the fewest conversions. It
needs none if and only if some overload declares the types of the arguments by name, wherever it
stands. -/
theorem resolve_fewest_conversions (registry : OperatorRegistry) (casts : CastRegistry)
    (name : String) (arguments : List MathType) :
    ((∃ n help, registry.resolve casts name arguments = .error (.unknownOperator n help)) ↔
      registry.candidates name = []) ∧
    ((∃ n types help, registry.resolve casts name arguments =
        .error (.noViableOverload n types help)) ↔
      registry.candidates name ≠ [] ∧
        ∀ o ∈ registry.candidates name, ∀ cs, ¬o.ReachedBy casts arguments cs) ∧
    ((∃ r, registry.resolve casts name arguments = .ok r) ↔
      ∃ o ∈ registry.candidates name, ∃ cs, o.ReachedBy casts arguments cs) ∧
    (∀ r, registry.resolve casts name arguments = .ok r ↔
      Chosen casts arguments (registry.candidates name) r) ∧
    ((∃ r, registry.resolve casts name arguments = .ok r ∧ r.distance = 0) ↔
      ∃ o ∈ registry.candidates name, o.arguments.map (·.name) = arguments.map (·.name)) := by
  refine ⟨resolve_eq_unknownOperator, resolve_eq_noViableOverload, ?_,
    fun r => resolve_eq_ok_iff, ?_⟩
  · simp only [resolve_eq_ok_iff, exists_chosen]
  · simp only [← Overload.reachedBy_identities casts, resolve_eq_ok_iff]
    constructor
    · rintro ⟨r, chosen, zero⟩
      exact ⟨r.overload, chosen.mem, r.casts, chosen.reached, chosen.counted ▸ zero⟩
    · rintro ⟨o, ho, cs, reached, zero⟩
      obtain ⟨r, chosen⟩ := exists_chosen.2 ⟨o, ho, cs, reached⟩
      exact ⟨r, chosen, Nat.le_zero.1 (zero ▸ chosen.le ho reached)⟩

end OperatorRegistry

end Formula
