import Formula.Proofs.Library.Install
import Formula.Proofs.Library.Lawful
/-!
All descriptions of evaluators in the standard library are lawful, family by family.
-/

namespace Formula.Library

open Formula.Function

/-! ### Kinds -/

theorem kinds_bool : kinds.lookup "bool" = some .bool := by decide

theorem kinds_int : kinds.lookup "int" = some .int := by decide

theorem kinds_real : kinds.lookup "real" = some .real := by decide

theorem kinds_complex : kinds.lookup "complex" = some .complex := by decide

theorem kinds_ranged_bool : kinds.lookup (ranged "bool") = some .boolInterval := by decide

theorem kinds_ranged_int : kinds.lookup (ranged "int") = some .interval := by decide

theorem kinds_ranged_real : kinds.lookup (ranged "real") = some .interval := by decide

/-! ### Conversions -/

theorem lawful_castBy {source target : String} {f : Function} (h : f.Lawful [source] target) :
    (castBy source target f).Lawful :=
  .function rfl h

theorem lawful_concreteCasts : ∀ s ∈ concreteCasts, s.Lawful := by
  simp only [concreteCasts, List.forall_mem_cons, List.not_mem_nil, false_imp_iff, implies_true,
    and_true]
  refine ⟨?_, ?_, ?_, ?_, ?_, ?_, ?_⟩
  · exact lawful_castBy (lawful_fresh₁ fun _ _ => belongs_of_kind kinds_real)
  · exact lawful_castBy (lawful_fresh₁ fun _ _ => belongs_of_kind kinds_complex)
  · exact lawful_castBy (lawful_fresh₁ fun _ _ => belongs_of_kind kinds_complex)
  · refine .identity rfl rfl rfl fun v hv => ?_
    exact (belongs_iff kinds_ranged_real).2 ((belongs_iff kinds_ranged_int).1 hv)
  · exact lawful_castBy (lawful_inPlace₁ fun _ _ => belongs_of_kind kinds_ranged_bool)
  · exact lawful_castBy (lawful_inPlace₁ fun _ _ => belongs_of_kind kinds_ranged_int)
  · exact lawful_castBy (lawful_inPlace₁ fun _ _ => belongs_of_kind kinds_ranged_real)

/-! ### Overloads -/

/-- All evaluators of an overload are described lawfully. -/
def Lawful (s : Overload.Spec) : Prop :=
  ∀ p ∈ s.evaluators, p.2.Lawful

variable {s : Overload.Spec} {f : Function}

theorem lawful_overload (name : String) (arguments : List String) (result : String) :
    Lawful (overload name arguments result) :=
  fun _ h => nomatch h

theorem Lawful.evaluated {mode : Mode} {e : Evaluator.Spec} (h : Lawful s) (he : e.Lawful) :
    Lawful (s.evaluated mode e) := by
  intro p hp
  rcases List.mem_append.1 hp with hp | hp
  · exact h p hp
  · rw [List.mem_singleton.1 hp]
    exact he

theorem Lawful.withPlain (h : Lawful s) (hf : f.Lawful s.arguments s.result) :
    Lawful (withPlain s f) :=
  h.evaluated (.function rfl hf)

theorem Lawful.withRanged (h : Lawful s)
    (hf : f.Lawful (s.arguments.map ranged) (ranged s.result)) : Lawful (withRanged s f) :=
  h.evaluated (.function rfl hf)

/-- A token may stand for an operation on values of some kinds. -/
theorem lawful_binary {name token a b r : String} {op : BinaryOp} {j k l : Kind}
    (found : BinaryOp.ofToken? token = some op) (ha : kinds.lookup a = some j)
    (hb : kinds.lookup b = some k) (hr : kinds.lookup r = some l)
    (sound : ∀ v w : Value, v.kind = j → w.kind = k → (op.apply v w).kind = l) :
    Lawful (withToken (overload name [a, b] r) token) := by
  refine (lawful_overload name [a, b] r).evaluated (.binary rfl rfl rfl found rfl ?_)
  intro v w hv hw
  exact (belongs_iff hr).2 (sound v w ((belongs_iff ha).1 hv) ((belongs_iff hb).1 hw))

theorem lawful_unary {name token a r : String} {op : UnaryOp} {k l : Kind}
    (found : UnaryOp.ofToken? token = some op) (ha : kinds.lookup a = some k)
    (hr : kinds.lookup r = some l) (sound : ∀ v : Value, v.kind = k → (op.apply v).kind = l) :
    Lawful (withToken (overload name [a] r) token) := by
  refine (lawful_overload name [a] r).evaluated (.unary rfl rfl rfl found rfl ?_)
  intro v hv
  exact (belongs_iff hr).2 (sound v ((belongs_iff ha).1 hv))

/-! ### Arithmetic -/

theorem kind_neg {v : Value} {k : Kind} (hk : k = .int ∨ k = .real) (hv : v.kind = k) :
    (UnaryOp.neg.apply v).kind = k := by
  subst hv
  cases v <;> first | rfl | simp [Value.kind] at hk

/-- The operators of the ring of integers are those of real numbers too. -/
theorem ring_cases {a : Arithmetic} (ha : a ∈ ring) : ∃ op, BinaryOp.ofToken? a.token = some op ∧
    (op = .add ∨ op = .sub ∨ op = .mul) := by
  simp only [ring, List.mem_cons, List.not_mem_nil, or_false] at ha
  rcases ha with rfl | rfl | rfl
  · exact ⟨.add, by decide, .inl rfl⟩
  · exact ⟨.sub, by decide, .inr (.inl rfl)⟩
  · exact ⟨.mul, by decide, .inr (.inr rfl)⟩

theorem lawful_onInts {a : Arithmetic} (ha : a ∈ ring) : Lawful (onInts a) := by
  obtain ⟨op, hop, hcases⟩ := ring_cases ha
  refine Lawful.withRanged ?_ (lawful_intervalPair kinds_ranged_int)
  refine lawful_binary hop kinds_int kinds_int kinds_int fun v w hv hw => ?_
  rcases hcases with rfl | rfl | rfl <;> exact BinaryOp.kind_arithmetic_int hv hw

theorem lawful_onReals {a : Arithmetic} (ha : a ∈ field) : Lawful (onReals a) := by
  refine Lawful.withRanged ?_ (lawful_intervalPair kinds_ranged_real)
  -- the quotient is the only operator that integers do not have
  rcases List.mem_append.1 ha with ha | ha
  · obtain ⟨op, hop, hcases⟩ := ring_cases ha
    refine lawful_binary hop kinds_real kinds_real kinds_real fun v w hv hw => ?_
    rcases hcases with rfl | rfl | rfl <;> exact BinaryOp.kind_arithmetic_real hv hw
  · obtain rfl := List.mem_singleton.1 ha
    have hop : BinaryOp.ofToken? "/" = some .div := by decide
    exact lawful_binary hop kinds_real kinds_real kinds_real fun v w _ _ =>
      BinaryOp.kind_quotient v w

theorem lawful_onComplexes (a : Arithmetic) : Lawful (onComplexes a) :=
  (lawful_overload _ _ _).withPlain (lawful_complexPair kinds_complex)

theorem lawful_negations : ∀ s ∈ negations, Lawful s := by
  have hop : UnaryOp.ofToken? "-" = some .neg := by decide
  simp only [negations, List.forall_mem_cons, List.not_mem_nil, false_imp_iff, implies_true,
    and_true]
  refine ⟨?_, ?_, ?_⟩
  · exact (lawful_unary hop kinds_int kinds_int fun v hv => kind_neg (.inl rfl) hv).withRanged
      (lawful_interval kinds_ranged_int)
  · exact (lawful_unary hop kinds_real kinds_real fun v hv => kind_neg (.inr rfl) hv).withRanged
      (lawful_interval kinds_ranged_real)
  · exact (lawful_overload _ _ _).withPlain
      (lawful_inPlace₁ fun _ _ => belongs_of_kind kinds_complex)

theorem lawful_powers : ∀ s ∈ powers, Lawful s := by
  simp only [powers, List.forall_mem_cons, List.not_mem_nil, false_imp_iff, implies_true, and_true]
  refine ⟨?_, ?_, ?_, ?_⟩
  · refine Lawful.withRanged ?_ (lawful_intervalPair kinds_ranged_int)
    exact (lawful_overload _ _ _).withPlain
      (lawful_fresh₂ fun _ _ _ _ => belongs_of_kind kinds_int)
  · refine Lawful.withRanged ?_ (lawful_intervalPair kinds_ranged_real)
    exact (lawful_overload _ _ _).withPlain
      (lawful_fresh₂ fun _ _ _ _ => belongs_of_kind kinds_real)
  · exact (lawful_overload _ _ _).withPlain
      (lawful_fresh₂ fun _ _ _ _ => belongs_of_kind kinds_real)
  · exact (lawful_overload _ _ _).withPlain (lawful_complexPair kinds_complex)

theorem lawful_arithmeticOperators : ∀ s ∈ arithmeticOperators, Lawful s := by
  intro s hs
  simp only [arithmeticOperators, List.mem_append, List.mem_map, List.mem_flatMap,
    List.mem_cons, List.not_mem_nil, or_false] at hs
  rcases hs with ((⟨a, ha, rfl⟩ | ⟨a, ha, rfl | rfl⟩) | hs) | hs
  · exact lawful_onInts ha
  · exact lawful_onReals ha
  · exact lawful_onComplexes a
  · exact lawful_negations s hs
  · exact lawful_powers s hs

/-! ### Comparisons and logic -/

theorem lawful_comparison {token : String} {op : BinaryOp}
    (found : BinaryOp.ofToken? token = some op)
    (sound : ∀ v w : Value, (op.apply v w).kind = .bool) : Lawful (comparison token) :=
  lawful_binary found kinds_real kinds_real kinds_bool fun v w _ _ => sound v w

theorem lawful_connective {token : String} {op : BinaryOp}
    (found : BinaryOp.ofToken? token = some op)
    (sound : ∀ v w : Value, (op.apply v w).kind = .bool) : Lawful (connective token) :=
  lawful_binary found kinds_bool kinds_bool kinds_bool fun v w _ _ => sound v w

theorem kind_not (v : Value) : (UnaryOp.not.apply v).kind = .bool := by
  cases v <;> rfl

theorem lawful_logicOperators : ∀ s ∈ logicOperators, Lawful s := by
  have hlt : BinaryOp.ofToken? "<" = some .lt := by decide
  have hle : BinaryOp.ofToken? "<=" = some .le := by decide
  have hgt : BinaryOp.ofToken? ">" = some .gt := by decide
  have hge : BinaryOp.ofToken? ">=" = some .ge := by decide
  have heq : BinaryOp.ofToken? "==" = some .eq := by decide
  have hne : BinaryOp.ofToken? "!=" = some .ne := by decide
  have hand : BinaryOp.ofToken? "&&" = some .and := by decide
  have hor : BinaryOp.ofToken? "||" = some .or := by decide
  have hnot : UnaryOp.ofToken? "!" = some .not := by decide
  simp only [logicOperators, List.forall_mem_cons, List.not_mem_nil, false_imp_iff, implies_true,
    and_true]
  refine ⟨?_, ?_, ?_, ?_, ?_, ?_, ?_, ?_, ?_⟩
  · exact (lawful_comparison hlt BinaryOp.kind_comparison).withRanged
      (lawful_intervalComparison kinds_ranged_bool)
  · exact lawful_comparison hle BinaryOp.kind_comparison
  · exact (lawful_comparison hgt BinaryOp.kind_comparison).withRanged
      (lawful_intervalComparison kinds_ranged_bool)
  · exact lawful_comparison hge BinaryOp.kind_comparison
  · exact lawful_comparison heq BinaryOp.kind_comparison
  · exact lawful_comparison hne BinaryOp.kind_comparison
  · exact lawful_connective hand BinaryOp.kind_logic
  · exact lawful_connective hor BinaryOp.kind_logic
  · exact lawful_unary hnot kinds_bool kinds_bool fun v _ => kind_not v

/-! ### Functions -/

theorem lawful_realFunction (name : String) (g : Double → Double) : Lawful (realFunction name g) :=
  (lawful_overload _ _ _).withPlain (lawful_real kinds_real)

theorem lawful_complexPart (name : String) (g : Complex → Double) : Lawful (complexPart name g) :=
  (lawful_overload _ _ _).withPlain (lawful_part kinds_real)

theorem lawful_namedFunctions : ∀ s ∈ namedFunctions, Lawful s := by
  simp only [namedFunctions, List.forall_mem_cons, List.not_mem_nil, false_imp_iff, implies_true,
    and_true]
  refine ⟨lawful_realFunction _ _, lawful_realFunction _ _, lawful_realFunction _ _,
    ?_, ?_, ?_, ?_, ?_, lawful_complexPart _ _, lawful_complexPart _ _, lawful_complexPart _ _,
    lawful_complexPart _ _, ?_⟩
  · exact (lawful_realFunction _ _).withRanged (lawful_interval kinds_ranged_real)
  · exact (lawful_realFunction _ _).withRanged (lawful_interval kinds_ranged_real)
  · exact (lawful_realFunction _ _).withRanged (lawful_interval kinds_ranged_real)
  · exact (lawful_realFunction _ _).withRanged (lawful_interval kinds_ranged_real)
  · exact (lawful_overload _ _ _).withPlain
      (lawful_inPlace₂ fun _ _ _ _ => belongs_of_kind kinds_complex)
  -- the branch that is taken is handed on as it is
  · refine (lawful_overload _ _ _).withPlain (lawful_fresh₃ fun u v w _ hv hw => ?_)
    cases u.toBool
    · exact hw
    · exact hv

/-- All overloads of the standard library are described lawfully. -/
theorem lawful_overloads : ∀ s ∈ overloads, Lawful s := by
  intro s hs
  simp only [overloads, List.mem_append] at hs
  rcases hs with (hs | hs) | hs
  · exact lawful_arithmeticOperators s hs
  · exact lawful_logicOperators s hs
  · exact lawful_namedFunctions s hs

end Formula.Library
