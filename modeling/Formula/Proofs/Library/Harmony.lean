import Formula.Proofs.Environment.Settings
import Formula.Proofs.Program.Readiness
/-!
The tables of the standard library are in harmony: what resolves over it compiles in the mode
`normal`, and in the mode `interval` as far as there are ranges for it.
-/

namespace Formula

/-! ### What is listed -/

namespace Environment

/-- All overloads of all operators. -/
def listedOverloads (env : Environment) : List Overload :=
  env.operators.overloads.values.flatten

/-- All types that expressions can have. -/
def listedTypes (env : Environment) : List MathType :=
  env.types.mathematical.values ++ env.listedOverloads.map (·.result)

variable {env : Environment}

theorem mem_listedOverloads {name : String} {o : Overload}
    (h : o ∈ env.operators.candidates name) : o ∈ env.listedOverloads := by
  unfold OperatorRegistry.candidates at h
  cases hos : env.operators.overloads.get? name with
  | none =>
    rw [hos] at h
    cases h
  | some os =>
    rw [hos] at h
    exact List.mem_flatten.2 ⟨os, Directory.mem_values_of_get? hos, h⟩

/-! ### The standard library -/

/-- The types of the library are all represented by plain values, and by ranges unless they are
complex numbers. -/
theorem representations_standard : ∀ t ∈ (standard {}).types.mathematical.values,
    (t.representation? Mode.normal).isSome ∧
    ((t.representation? Mode.interval).isSome ↔ t.name ≠ "complex") := by
  decide +kernel

theorem plain_evaluators_standard :
    ∀ o ∈ (standard {}).listedOverloads, (o.evaluator? Mode.normal).isSome := by
  decide +kernel

theorem lifted_standard : ∀ t ∈ (standard {}).types.mathematical.values,
    ∀ r ∈ t.representations.entries, ∃ d ∈ t.representation? Mode.normal,
      ((standard {}).casts.concreteCast? d r.2).isSome := by
  decide +kernel

theorem met_standard : ∀ o ∈ (standard {}).listedOverloads, ∀ t ∈ o.arguments,
    ∀ u ∈ (standard {}).listedTypes, ((standard {}).casts.mathCast? u t).isSome →
      ∀ r ∈ u.representations.entries, ∀ d ∈ t.representation? r.1,
        ((standard {}).casts.concreteCast? r.2 d).isSome := by
  decide +kernel

variable {config : Config}

theorem known_standard {name : String} {t : MathType}
    (known : (standard config).types.mathematical.get? name = some t) :
    t ∈ (standard {}).types.mathematical.values := by
  rw [types_standard] at known
  exact Directory.mem_values_of_get? known

theorem represented_standard {name : String} {t : MathType}
    (known : (standard config).types.mathematical.get? name = some t) :
    (t.representation? Mode.normal).isSome ∧
    ((t.representation? Mode.interval).isSome ↔ t.name ≠ "complex") :=
  representations_standard t (known_standard known)

theorem candidate_standard {name : String} {o : Overload}
    (candidate : o ∈ (standard config).operators.candidates name) :
    o ∈ (standard {}).listedOverloads := by
  rw [operators_standard] at candidate
  exact mem_listedOverloads candidate

theorem given_standard {t : MathType} (h : (standard config).Gives t) :
    t ∈ (standard {}).listedTypes := by
  cases h with
  | known known => exact List.mem_append_left _ (known_standard known)
  | result candidate =>
    exact List.mem_append_right _ (List.mem_map_of_mem (candidate_standard candidate))

/-- The tables of the library are in harmony where constants are written as plain values. -/
theorem harmonious_standard (normal : config.defaultMode = Mode.normal) :
    (standard config).Harmonious := by
  constructor
  · intro _ t known _ c represented
    rw [config_standard, normal, casts_standard]
    exact lifted_standard t (known_standard known) _ (Directory.mem_entries_of_get? represented)
  · intro _ o candidate t argument u given reached _ c d hc hd
    rw [casts_standard] at reached ⊢
    exact met_standard o (candidate_standard candidate) t argument u (given_standard given) reached
      _ (Directory.mem_entries_of_get? hc) d hd

section Ready

variable {vars : VariableTypes} {e : Expr} {t : MathType} (he : e.HasType (standard config) vars t)

include he

theorem ready_normal : ∀ n ∈ e.nodes, n.ReadyFor Mode.normal := by
  intro n hn
  obtain ⟨u, hu⟩ := he.of_mem_nodes hn
  cases hu with
  | group child => exact Expr.readyFor_group
  | var known => exact Expr.readyFor_var.2 (represented_standard known).1
  | const known belongs => exact Expr.readyFor_const.2 (represented_standard known).1
  | op length operands choice =>
    exact Expr.readyFor_op.2
      (plain_evaluators_standard _ (candidate_standard (Expr.choice_spec length choice).1))

/-- What is ready for ranges: operators with an evaluator of ranges, on leaves that are not complex
numbers. -/
theorem ready_interval_iff : (∀ n ∈ e.nodes, n.ReadyFor Mode.interval) ↔
    (∀ slot name cs r, Expr.op slot name cs (some r) ∈ e.nodes →
      (r.overload.evaluator? Mode.interval).isSome) ∧
    ∀ u, u.name = "complex" → (∀ name, Expr.var (.resolved u) name ∉ e.nodes) ∧
      ∀ v typeName text, Expr.const (.resolved u) v typeName text ∉ e.nodes := by
  constructor
  · intro ready
    refine ⟨fun slot name cs r hn => Expr.readyFor_op.1 (ready _ hn), fun u hu => ⟨?_, ?_⟩⟩
    · intro name hn
      obtain ⟨_, hv⟩ := he.of_mem_nodes hn
      cases hv with
      | var known => exact (represented_standard known).2.1 (Expr.readyFor_var.1 (ready _ hn)) hu
    · intro v typeName text hn
      obtain ⟨_, hc⟩ := he.of_mem_nodes hn
      cases hc with
      | const known belongs =>
        exact (represented_standard known).2.1 (Expr.readyFor_const.1 (ready _ hn)) hu
  · rintro ⟨operators, leaves⟩ n hn
    obtain ⟨u, hu⟩ := he.of_mem_nodes hn
    cases hu with
    | group child => exact Expr.readyFor_group
    | var known =>
      refine Expr.readyFor_var.2 ((represented_standard known).2.2 fun hname => ?_)
      exact (leaves u hname).1 _ hn
    | const known belongs =>
      refine Expr.readyFor_const.2 ((represented_standard known).2.2 fun hname => ?_)
      exact (leaves u hname).2 _ _ _ hn
    | op length operands choice => exact Expr.readyFor_op.2 (operators _ _ _ _ hn)

end Ready

/-- What resolves over the standard library compiles, if constants are written as plain values: in
the mode `normal` always, in the mode `interval` if all overloads that are chosen have an evaluator
of ranges and no leaf is a complex number, and only then. All that can be missing, in any mode, is
an evaluator or a representation. -/
theorem compile_standard (normal : config.defaultMode = Mode.normal) (vars : VariableTypes)
    {e : Expr} (resolved : ((standard config).resolve vars e).2.hasErrors = false)
    {options : CompileOptions} (valid : options.validate = .ok ()) :
    (options.mode = Mode.normal →
      ∃ unit, (standard config).compile options ((standard config).resolve vars e).1 = .ok unit) ∧
    (options.mode = Mode.interval →
      ((∃ unit,
        (standard config).compile options ((standard config).resolve vars e).1 = .ok unit) ↔
      (∀ slot name cs r,
        Expr.op slot name cs (some r) ∈ ((standard config).resolve vars e).1.nodes →
          (r.overload.evaluator? Mode.interval).isSome) ∧
      ∀ u, u.name = "complex" →
        (∀ name, Expr.var (.resolved u) name ∉ ((standard config).resolve vars e).1.nodes) ∧
        ∀ v typeName text,
          Expr.const (.resolved u) v typeName text ∉
            ((standard config).resolve vars e).1.nodes)) ∧
    ∀ err, (standard config).compile options ((standard config).resolve vars e).1 = .error err →
      ∃ subject, err = .noEvaluator subject options.mode := by
  obtain ⟨t, ht⟩ := Expr.hasType_resolve resolved
  obtain ⟨hready, herror⟩ := (harmonious_standard normal).compile
    (reachable_standard config).coherent ht valid
  refine ⟨fun hmode => hready.2 ?_, fun hmode => hready.trans ?_, herror⟩
  · rw [hmode]
    exact ready_normal ht
  · rw [hmode]
    exact ready_interval_iff ht

/-- The expression `x ^ 2 < 9`. -/
def squareBelow : Expr :=
  .op .pending "<"
    [.op .pending "^" [.var .pending "x", .const .pending (.int 2) "int" none] none,
      .const .pending (.int 9) "int" none] none

/-- Whether there are ranges for a node. -/
def isRanged : Expr → Bool
  | .group _ _ => true
  | .var slot _ => slot.type?.all (·.name != "complex")
  | .const slot _ _ _ => slot.type?.all (·.name != "complex")
  | .op _ _ _ r => r.all fun q => (q.overload.evaluator? Mode.interval).isSome

/-- It compiles for plain values and for ranges, and not for a mode in which nothing is
represented. -/
theorem compile_squareBelow :
    (∃ unit, (standard {}).compile { mode := Mode.normal }
      ((standard {}).resolve .empty squareBelow).1 = .ok unit) ∧
    (∃ unit, (standard {}).compile { mode := Mode.interval }
      ((standard {}).resolve .empty squareBelow).1 = .ok unit) ∧
    ∃ subject, (standard {}).compile { mode := "rational" }
      ((standard {}).resolve .empty squareBelow).1 = .error (.noEvaluator subject "rational") := by
  have hresolved : ((standard {}).resolve .empty squareBelow).2.hasErrors = false := by
    decide +kernel
  have hranged : ∀ n ∈ ((standard {}).resolve .empty squareBelow).1.nodes, isRanged n := by
    decide +kernel
  have hrational : ((standard {}).compile { mode := "rational" }
      ((standard {}).resolve .empty squareBelow).1).isOk = false := by
    decide +kernel
  refine ⟨(compile_standard rfl .empty hresolved rfl).1 rfl, ?_, ?_⟩
  · refine ((compile_standard rfl .empty hresolved rfl).2.1 rfl).2 ⟨?_, fun u hu => ⟨?_, ?_⟩⟩
    · exact fun slot name cs r hn => hranged _ hn
    · intro name hn
      have := hranged _ hn
      simp [isRanged, TypeSlot.type?, hu] at this
    · intro v typeName text hn
      have := hranged _ hn
      simp [isRanged, TypeSlot.type?, hu] at this
  · cases hunit : (standard {}).compile { mode := "rational" }
        ((standard {}).resolve .empty squareBelow).1 with
    | error err =>
      obtain ⟨subject, rfl⟩ := (compile_standard rfl .empty hresolved rfl).2.2 err hunit
      exact ⟨subject, rfl⟩
    | ok unit =>
      rw [hunit] at hrational
      cases hrational

end Environment

end Formula
