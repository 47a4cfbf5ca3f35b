import Formula.Proofs.Expr.Reresolving
import Formula.Proofs.Expr.Variables
import Formula.Proofs.Program.Replacement
import Formula.Proofs.Program.WellFormed
import Mathlib.Logic.Relation
/-!
Groups stand for their children. Where groups are put around parts of an expression, it has the same
types, overloads, findings and variables as without them, and is compiled to the same program.
-/

namespace Formula

open Relation (ReflTransGen)

namespace Expr

/-- A group is put around one part of an expression, with what is known of the type of that part.
All else stays, with what is stored in it. -/
inductive Wraps : Expr → Expr → Prop
  | here (e : Expr) : Wraps e (group e.slot [e])
  | group {slot before e e' after} (below : Wraps e e') :
      Wraps (group slot (before ++ e :: after)) (group slot (before ++ e' :: after))
  | op {slot name before e e' after r} (below : Wraps e e') :
      Wraps (op slot name (before ++ e :: after) r) (op slot name (before ++ e' :: after) r)

namespace Wraps

variable {e e' : Expr} {env : Environment} {vars : VariableTypes}

theorem slot_eq (h : Wraps e e') : e'.slot = e.slot := by
  cases h <;> rfl

theorem occurrences_eq (h : Wraps e e') : e'.occurrences = e.occurrences := by
  induction h with
  | here e => simp
  | group below ih | op below ih => simp [ih]

theorem map_slot_resolve_append (before after : List Expr)
    (h : (Expr.resolve env vars e').1.slot = (Expr.resolve env vars e).1.slot) :
    ((before.map fun c => (Expr.resolve env vars c).1) ++
        (Expr.resolve env vars e').1 :: after.map fun c => (Expr.resolve env vars c).1).map slot =
      ((before.map fun c => (Expr.resolve env vars c).1) ++
        (Expr.resolve env vars e).1 :: after.map fun c => (Expr.resolve env vars c).1).map slot := by
  simp [h]

/-- What is resolved with a group is resolved without it, and has the group put around it. -/
theorem resolve (h : Wraps e e') (env : Environment) (vars : VariableTypes) :
    Wraps (Expr.resolve env vars e).1 (Expr.resolve env vars e').1 ∧
      (Expr.resolve env vars e').2 = (Expr.resolve env vars e).2 := by
  induction h with
  | here e =>
    have hgroup : Expr.resolve env vars (Expr.group e.slot [e]) =
        (.group (Expr.resolve env vars e).1.slot [(Expr.resolve env vars e).1],
          (Expr.resolve env vars e).2) := by
      simp [resolve_group, resolveGroup]
    rw [hgroup]
    exact ⟨.here _, rfl⟩
  | @group slot before e e' after below ih =>
    obtain ⟨hwraps, hfound⟩ := ih
    have hgroup := resolveGroup_congr (map_slot_resolve_append before after hwraps.slot_eq)
    simp only [resolve_group, List.map_append, List.map_cons, List.flatMap_append,
      List.flatMap_cons, hfound, hgroup]
    exact ⟨.group hwraps, trivial⟩
  | @op slot name before e e' after r below ih =>
    obtain ⟨hwraps, hfound⟩ := ih
    have htypes := mapM_type?_congr (map_slot_resolve_append before after hwraps.slot_eq)
    simp only [resolve_op, List.map_append, List.map_cons, List.flatMap_append,
      List.flatMap_cons, hfound, resolveOperator, htypes]
    exact ⟨.op hwraps, trivial⟩

end Wraps

end Expr

namespace Compile

variable {ctx : Context}

theorem nodes_congr {before after : List Expr} {e e' : Expr} (h : node ctx e' = node ctx e)
    (targets : List ConcreteType) :
    nodes ctx (before ++ e' :: after) targets = nodes ctx (before ++ e :: after) targets := by
  induction before generalizing targets with
  | nil =>
    cases targets with
    | nil => simp [nodes]
    | cons target targets => simp only [List.nil_append, nodes, h]
  | cons c before ih =>
    cases targets with
    | nil => simp [nodes]
    | cons target targets => simp only [List.cons_append, nodes, ih]

/-- A group is compiled to what it is put around, if that has a type. -/
theorem node_wraps {env : Environment} {vars : VariableTypes} {e e' : Expr} {t : MathType}
    (h : e.Wraps e') (he : e.HasType env vars t) : node ctx e' = node ctx e := by
  induction h generalizing t with
  | here e =>
    rw [he.slot_eq, node]
    rfl
  | @group slot before e e' after below ih =>
    generalize hcs : before ++ e :: after = cs at he
    cases he with
    | @group c t child =>
      have honly : before = [] ∧ e = c ∧ after = [] := by
        rw [List.append_eq_singleton_iff] at hcs
        simpa using hcs
      obtain ⟨rfl, rfl, rfl⟩ := honly
      rw [List.nil_append, node, node]
      simp only [ih child]
      rfl
  | @op slot name before e e' after r below ih =>
    generalize hcs : before ++ e :: after = cs at he
    cases he with
    | @op _ _ ts r length operands choice =>
      subst hcs
      obtain ⟨u, hzip⟩ := Expr.exists_mem_zip length (c := e) (by simp)
      simp only [node, nodes_congr (ih (operands e u hzip))]
      rfl

end Compile

namespace Environment

open Formula.Expr

variable {env : Environment} {vars : VariableTypes} {e e' : Expr}

theorem resolve_wrapped (env : Environment) (vars : VariableTypes)
    (h : ReflTransGen Wraps e e') :
    ReflTransGen Wraps (env.resolve vars e).1 (env.resolve vars e').1 ∧
      (env.resolve vars e').2 = (env.resolve vars e).2 := by
  induction h with
  | refl => exact ⟨.refl, rfl⟩
  | tail _ wraps ih =>
    obtain ⟨hwraps, hfound⟩ := wraps.resolve env vars
    exact ⟨ih.1.tail hwraps, (congrArg Outcome.mk hfound).trans ih.2⟩

theorem occurrences_wrapped (h : ReflTransGen Wraps e e') : e'.occurrences = e.occurrences := by
  induction h with
  | refl => rfl
  | tail _ wraps ih => rw [wraps.occurrences_eq, ih]

/-- Every expression on the way from one without the groups to the one with all of them resolves
without errors, and so has a type. -/
theorem node_wrapped (h : ReflTransGen Wraps e e')
    (resolved : (env.resolve vars e).2.hasErrors = false) (ctx : Compile.Context) :
    Compile.node ctx (env.resolve vars e').1 = Compile.node ctx (env.resolve vars e).1 := by
  induction h with
  | refl => rfl
  | @tail m m' between wraps ih =>
    have hm : (env.resolve vars m).2.hasErrors = false := by
      rw [(resolve_wrapped env vars between).2]
      exact resolved
    obtain ⟨t, ht⟩ := hasType_resolve hm
    rw [← ih]
    exact Compile.node_wraps (wraps.resolve env vars).1 ht

/-- Groups that are put around parts of an expression, however many and wherever, do not show. It is
resolved with the same findings, and to the same but for the groups, each of which has the type of
its child. The used variables are the same, and if it resolves without errors it is compiled, for
all options, to the same unit, or fails with the same error. -/
theorem groups_transparent (env : Environment) (vars : VariableTypes)
    (wrapped : ReflTransGen Wraps e.bare e'.bare) :
    ReflTransGen Wraps (env.resolve vars e).1 (env.resolve vars e').1 ∧
    (env.resolve vars e').2 = (env.resolve vars e).2 ∧
    e'.bare.usedVariables = e.bare.usedVariables ∧
    (env.resolve vars e').1.usedVariables = (env.resolve vars e).1.usedVariables ∧
    ((env.resolve vars e).2.hasErrors = false → ∀ options,
      env.compile options (env.resolve vars e').1 =
        env.compile options (env.resolve vars e).1) := by
  rw [← env.resolve_bare vars e, ← env.resolve_bare vars e']
  obtain ⟨hwraps, hfound⟩ := resolve_wrapped env vars wrapped
  refine ⟨hwraps, hfound, ?_, ?_, fun resolved options => ?_⟩
  · rw [usedVariables_eq, occurrences_wrapped wrapped, ← usedVariables_eq]
  · rw [usedVariables_eq, occurrences_wrapped hwraps, ← usedVariables_eq]
  · simp only [compile, Compile.program, node_wrapped wrapped resolved]

end Environment

namespace Sums

/-- The expression `((x) + x + ((2)))`. -/
def grouped : Expr :=
  .group .pending [.op .pending "+" [
    .op .pending "+" [.group .pending [.var .pending "x"], .var .pending "x"] none,
    .group .pending [.group .pending [.const .pending (.real 2) "real" none]]] none]

/-- Groups around a variable that is shared and converted, around a constant that is converted
ahead, twice, and around the whole: a unit is compiled, and it is the same. -/
theorem grouped_transparent :
    ReflTransGen Expr.Wraps twicePlusTwo.bare grouped.bare ∧
    (env.resolve .empty twicePlusTwo).2.hasErrors = false ∧
    ∃ unit, env.compile {} (env.resolve .empty twicePlusTwo).1 = .ok unit ∧
      env.compile {} (env.resolve .empty grouped).1 = .ok unit := by
  have wrapped : ReflTransGen Expr.Wraps twicePlusTwo.bare grouped.bare := by
    refine .head (@Expr.Wraps.op _ _ [] _ _ _ _ (@Expr.Wraps.op _ _ [] _ _ _ _ (.here _))) ?_
    refine .head (@Expr.Wraps.op _ _ [_] _ _ _ _ (.here _)) ?_
    refine .head (@Expr.Wraps.op _ _ [_] _ _ _ _ (.here _)) ?_
    exact .single (.here _)
  obtain ⟨unit, hunit, -⟩ := wellFormed_twicePlusTwo
  have hcompile := (Environment.groups_transparent env .empty wrapped).2.2.2.2
    resolved_twicePlusTwo {}
  exact ⟨wrapped, resolved_twicePlusTwo, unit, hunit, hcompile.trans hunit⟩

end Sums

end Formula
