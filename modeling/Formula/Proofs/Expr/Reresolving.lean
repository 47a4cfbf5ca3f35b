import Formula.Proofs.Environment.Reachable
import Formula.Proofs.Expr.Resolution
/-!
Resolving an expression again. The pass looks at an expression as it was written: whatever was
stored at its nodes before, under other types of the variables or by a pass that failed, is
overwritten or cleared.
-/

namespace Formula

namespace Expr

variable {env : Environment} {vars : VariableTypes}

theorem resolveAll_map_bare {cs : List Expr}
    (h : ∀ c ∈ cs, resolve env vars c.bare = resolve env vars c) :
    resolveAll env vars (cs.map bare) = resolveAll env vars cs := by
  induction cs with
  | nil => rfl
  | cons c cs ih =>
    rw [List.forall_mem_cons] at h
    simp only [List.map_cons, resolveAll, h.1, ih h.2]

/-- Nothing that is stored in an expression is looked at. -/
theorem resolve_bare (e : Expr) : resolve env vars e.bare = resolve env vars e := by
  induction e with
  | var | const => rfl
  | group slot cs ih | op slot name cs r ih =>
    simp only [bare, bareAll_eq_map, resolve, resolveAll_map_bare ih]

end Expr

namespace Environment

theorem resolve_bare (env : Environment) (vars : VariableTypes) (e : Expr) :
    env.resolve vars e.bare = env.resolve vars e := by
  rw [resolve, resolve, Expr.resolve_bare]

/-- Expressions that are written alike are resolved to the same, with the same types and overloads
at every node and the same findings, and stay as they are written. So an earlier pass makes no
difference, whatever it was made with: resolving twice is resolving once, and resolving for other
types of the variables is resolving afresh. -/
theorem resolve_as_written (env : Environment) (vars : VariableTypes) (e : Expr) :
    (env.resolve vars e).1.bare = e.bare ∧
    (∀ e' : Expr, e'.bare = e.bare → env.resolve vars e' = env.resolve vars e) ∧
    env.resolve vars (env.resolve vars e).1 = env.resolve vars e ∧
    ∀ (earlier : Environment) (vars' : VariableTypes),
      env.resolve vars (earlier.resolve vars' e).1 = env.resolve vars e.bare := by
  have alike : ∀ e' : Expr, e'.bare = e.bare → env.resolve vars e' = env.resolve vars e := by
    intro e' h
    rw [← env.resolve_bare vars e', h, env.resolve_bare]
  refine ⟨Expr.bare_resolve e, alike, alike _ (Expr.bare_resolve e), fun earlier vars' => ?_⟩
  rw [env.resolve_bare vars e]
  exact alike _ (Expr.bare_resolve e)

end Environment

namespace Sums

/-- The expression `(x + y) + x`, which has an overload at both sums if `x` and `y` are numbers. -/
def threeTerms : Expr :=
  .op .pending "+" [.op .pending "+" [.var .pending "x", .var .pending "y"] none,
    .var .pending "x"] none

/-- Types of the variables of which one is not known. -/
def unknownY : VariableTypes :=
  Directory.empty.insert "y" "quaternion"

/-- After a pass that succeeded, one that fails below the root clears what was stored at both sums,
and finds what it would have found at once. -/
theorem resolve_threeTerms_again :
    (env.resolve .empty threeTerms).1.resolution?.isSome = true ∧
    (env.resolve .empty threeTerms).1.bare = threeTerms.bare ∧
    env.resolve unknownY (env.resolve .empty threeTerms).1 = env.resolve unknownY threeTerms ∧
    (env.resolve unknownY (env.resolve .empty threeTerms).1).1.resolution?.isSome = false ∧
    (env.resolve unknownY (env.resolve .empty threeTerms).1).2.diagnostics.length = 1 := by
  have hwritten := (Environment.resolve_as_written env .empty threeTerms).1
  have hagain := (Environment.resolve_as_written env unknownY threeTerms).2.1 _ hwritten
  refine ⟨by decide +kernel, hwritten, hagain, ?_, ?_⟩
  · rw [hagain]
    decide +kernel
  · rw [hagain]
    decide +kernel

end Sums

end Formula
