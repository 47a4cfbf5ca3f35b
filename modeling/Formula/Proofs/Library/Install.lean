import Formula.Proofs.Environment.Reachable
/-!
What the registration of the standard library keeps: all that its single steps keep, so that every
stage of it is an environment that requests lead to.
-/

namespace Formula

namespace Library

open Registration

variable {P : Environment → Prop} {Q : ConcreteType → Prop}

/-- The overloads of the standard library, in the order of their registration. -/
def overloads : List Overload.Spec :=
  arithmeticOperators ++ logicOperators ++ namedFunctions

theorem keeps_within {task : String} {r : Registration Unit} (h : r.Keeps P fun _ => True) :
    (within task r).Keeps P fun _ => True :=
  keeps_tryCatch h fun _ => keeps_throw

theorem keeps_installTypes
    (build : ∀ p ∈ concreteTypes, (buildConcreteType p).Keeps P Q)
    (register : ∀ c, Q c → (registerConcreteType c).Keeps P fun _ => True)
    (define : ∀ t ∈ mathTypes, (defineMathType t.1 t.2).Keeps P fun _ => True) :
    installTypes.Keeps P fun _ => True := by
  refine keeps_bind (keeps_mapM build) fun built hbuilt => ?_
  refine keeps_bind (keeps_forM fun c hc => keeps_discard (register c (hbuilt c hc))) fun _ _ => ?_
  exact keeps_forM fun t ht => keeps_discard (define t ht)

theorem keeps_installCasts
    (mathCast : ∀ c ∈ mathCasts, (defineMathCast c.1 c.2).Keeps P fun _ => True)
    (concreteCast : ∀ s ∈ concreteCasts, (defineConcreteCast s).Keeps P fun _ => True) :
    installCasts.Keeps P fun _ => True := by
  refine keeps_bind (keeps_forM fun c hc => keeps_discard (mathCast c hc)) fun _ _ => ?_
  exact keeps_forM fun s hs => keeps_discard (concreteCast s hs)

theorem keeps_installOverloads {specs : List Overload.Spec}
    (define : ∀ s ∈ specs, (defineOverload s).Keeps P fun _ => True) :
    (installOverloads specs).Keeps P fun _ => True :=
  keeps_forM fun s hs => keeps_discard (define s hs)

section Steps

variable (build : ∀ p ∈ concreteTypes, (buildConcreteType p).Keeps P Q)
  (register : ∀ c, Q c → (registerConcreteType c).Keeps P fun _ => True)
  (defineType : ∀ t ∈ mathTypes, (defineMathType t.1 t.2).Keeps P fun _ => True)
  (mathCast : ∀ c ∈ mathCasts, (defineMathCast c.1 c.2).Keeps P fun _ => True)
  (concreteCast : ∀ s ∈ concreteCasts, (defineConcreteCast s).Keeps P fun _ => True)
  (defineOver : ∀ s ∈ overloads, (defineOverload s).Keeps P fun _ => True)

include build register defineType mathCast concreteCast defineOver

/-- The registration of the library keeps what all its steps keep. -/
theorem keeps_install : install.Keeps P fun _ => True := by
  simp only [overloads, List.mem_append, or_imp, forall_and] at defineOver
  obtain ⟨⟨harithmetic, hlogic⟩, hnamed⟩ := defineOver
  exact keeps_bind (keeps_within (keeps_installTypes build register defineType)) fun _ _ =>
    keeps_bind (keeps_within (keeps_installCasts mathCast concreteCast)) fun _ _ =>
    keeps_bind (keeps_within (keeps_installOverloads harithmetic)) fun _ _ =>
    keeps_bind (keeps_within (keeps_installOverloads hlogic)) fun _ _ =>
    keeps_within (keeps_installOverloads hnamed)

/-- What every step of the registration keeps holds of the standard environment. -/
theorem standard_of_keeps {config : Config} (initially : P { config }) :
    P (Environment.standard config) :=
  (keeps_install build register defineType mathCast concreteCast defineOver _ initially).1

end Steps

end Library

namespace Environment

open Registration

theorem keeps_reachable {α : Type} {m : Registration α} {r : Request}
    (h : r.perform = discard m) : m.Keeps Reachable fun _ => True := by
  intro env henv
  have hrun : env.after r = (m.run env).2 := by
    unfold after
    rw [h]
    show ((m >>= fun _ => pure ()).run env).2 = _
    rw [run_bind]
    rcases m.run env with ⟨_ | _, _⟩ <;> rfl
  exact ⟨hrun ▸ henv.after r, fun _ _ => trivial⟩

/-- The standard environment is one that requests lead to. -/
theorem reachable_standard (config : Config) : (standard config).Reachable :=
  Library.standard_of_keeps
    (fun p _ => @keeps_reachable _ _ (.buildConcreteType p) rfl)
    (fun c _ => @keeps_reachable _ _ (.concreteType c) rfl)
    (fun t _ => @keeps_reachable _ _ (.defineMathType t.1 t.2) rfl)
    (fun c _ => @keeps_reachable _ _ (.defineMathCast c.1 c.2) rfl)
    (fun s _ => @keeps_reachable _ _ (.defineConcreteCast s) rfl)
    (fun s _ => @keeps_reachable _ _ (.defineOverload s) rfl)
    (.empty config)

end Environment

end Formula
