import Formula.Proofs.Interval.Enclosure
import Formula.Proofs.Library.Origins
/-!
The operators of the standard library on integers, of plain values and of ranges side by side. Plain
integers are computed modulo `2 ^ 64`, ranges are not: as long as nothing exceeds 64 bits a range
holds the plain result, and as soon as something does there are ranges that do not.
-/

namespace Formula

/-- The operators on integers that can be computed of plain values and of ranges. -/
inductive IntegerOperator where
  | add
  | sub
  | mul
  | neg
  | pow

namespace IntegerOperator

open Library

/-- How many operands an operator has. -/
def arity : IntegerOperator → Nat
  | neg => 1
  | _ => 2

/-- The description in the standard library. -/
def spec : IntegerOperator → Overload.Spec
  | add => onInts ⟨"+", .add, .add⟩
  | sub => onInts ⟨"-", .sub, .sub⟩
  | mul => onInts ⟨"*", .mul, .mul⟩
  | neg => withRanged (withToken (overload "-" ["int"] "int") "-") (.interval .neg)
  | pow => withRanged (withPlain (overload "^" ["int", "int"] "int")
      (.fresh₂ fun a b => .int (truncatedPower a.toInt b.toInt))) (.intervalPair .intPow)

/-- The result on 64-bit integers. -/
def plain : IntegerOperator → List Int64 → Int64
  | add, [m, n] => m + n
  | sub, [m, n] => m - n
  | mul, [m, n] => m * n
  | neg, [m] => -m
  | pow, [m, n] => truncatedPower m n
  | _, _ => 0

/-- The result on ranges. -/
def ranged {α : Type} [Endpoint α] : IntegerOperator → List (Interval α) → Interval α
  | add, [a, b] => a.add b
  | sub, [a, b] => a.sub b
  | mul, [a, b] => a.mul b
  | neg, [a] => a.neg
  | pow, [a, b] => a.intPow b
  | _, _ => .undefined

/-- The result on integers, however great they are. -/
def exact : IntegerOperator → List Int → Int
  | add, [m, n] => m + n
  | sub, [m, n] => m - n
  | mul, [m, n] => m * n
  | neg, [m] => -m
  | pow, [m, n] => wholePower m n
  | _, _ => 0

/-- A power has an exponent that ranges are not raised to. -/
def Great (op : IntegerOperator) (ns : List Int64) : Prop :=
  op = pow ∧ ∃ m n, ns = [m, n] ∧ Interval.greatestExponent < n.toInt

/-- The exact result is a 64-bit integer, or ranges have no result that says anything. -/
def Fits (op : IntegerOperator) (ns : List Int64) : Prop :=
  Int64.minValue.toInt ≤ op.exact (ns.map Int64.toInt) ∧
    op.exact (ns.map Int64.toInt) ≤ Int64.maxValue.toInt ∨ op.Great ns

/-- A range between integers, known to be defined everywhere, holds an integer. -/
structure Covers (a : Interval Exact) (n : Int64) : Prop where
  ends : ∃ l h : Int, a = .between l h a.info ∧ l ≤ n.toInt ∧ n.toInt ≤ h
  somewhere : Info.has a.info Info.somewhere = true
  everywhere : Info.has a.info Info.everywhere = true

variable {op : IntegerOperator} {ns : List Int64} {as : List (Interval Exact)}

/-! ### Ranges -/

open Formula.Interval Info

theorem Covers.between {a : Interval Exact} {n : Int64} (covers : Covers a n) :
    ∃ (l h : ℚ) (i : UInt8), a = between l h i ∧ Within Info.somewhere i ∧
      l ≤ (n.toInt : ℚ) ∧ (n.toInt : ℚ) ≤ h := by
  obtain ⟨⟨l, h, ha, hl, hh⟩, hsomewhere, -⟩ := covers
  exact ⟨l, h, a.info, ha, has_somewhere_iff.1 hsomewhere, by exact_mod_cast hl,
    by exact_mod_cast hh⟩

theorem covers_pair {m n : Int64} (covers : List.Forall₂ Covers as [m, n]) :
    ∃ (l h l' h' : ℚ) (i j : UInt8), as = [between l h i, between l' h' j] ∧
      Within Info.somewhere (i &&& j) ∧ (l ≤ (m.toInt : ℚ) ∧ (m.toInt : ℚ) ≤ h) ∧
      l' ≤ (n.toInt : ℚ) ∧ (n.toInt : ℚ) ≤ h' := by
  rcases covers with _ | ⟨ha, _ | ⟨hb, _ | _⟩⟩
  obtain ⟨l, h, i, rfl, hi, hm⟩ := ha.between
  obtain ⟨l', h', j, rfl, hj, hn⟩ := hb.between
  exact ⟨l, h, l', h', i, j, rfl, hi.and hj, hm, hn⟩

/-- The ranges have the results that there are without any limit. -/
theorem encloses (length : ns.length = op.arity) (covers : List.Forall₂ Covers as ns) :
    (op.ranged as).contains (.rational (op.exact (ns.map Int64.toInt))) = true := by
  cases op with
  | neg =>
    obtain ⟨m, rfl⟩ := List.length_eq_one_iff.1 length
    rcases covers with _ | ⟨ha, _ | _⟩
    obtain ⟨l, h, i, rfl, hi, hm⟩ := ha.between
    simpa [ranged, exact] using neg_encloses (ne_zero_of_somewhere hi) hm
  | add =>
    obtain ⟨m, n, rfl⟩ := List.length_eq_two.1 length
    obtain ⟨l, h, l', h', i, j, rfl, shared, hm, hn⟩ := covers_pair covers
    simpa [ranged, exact] using add_encloses shared hm hn
  | sub =>
    obtain ⟨m, n, rfl⟩ := List.length_eq_two.1 length
    obtain ⟨l, h, l', h', i, j, rfl, shared, hm, hn⟩ := covers_pair covers
    simpa [ranged, exact] using sub_encloses shared hm hn
  | mul =>
    obtain ⟨m, n, rfl⟩ := List.length_eq_two.1 length
    obtain ⟨l, h, l', h', i, j, rfl, shared, hm, hn⟩ := covers_pair covers
    simpa [ranged, exact] using mul_encloses shared hm hn
  | pow =>
    obtain ⟨m, n, rfl⟩ := List.length_eq_two.1 length
    obtain ⟨l, h, l', h', i, j, rfl, shared, hm, hn⟩ := covers_pair covers
    exact intPow_encloses shared hm hn

/-- The range that holds one integer. -/
def only (n : Int64) : Interval Exact :=
  between n.toInt n.toInt Info.all

theorem covers_only (n : Int64) : Covers (only n) n := by
  have hall : Info.has Info.all Info.somewhere = true ∧ Info.has Info.all Info.everywhere = true :=
    by decide
  exact ⟨⟨n.toInt, n.toInt, rfl, le_rfl, le_rfl⟩, hall.1, hall.2⟩

theorem forall₂_covers_only (ns : List Int64) : List.Forall₂ Covers (ns.map only) ns := by
  induction ns with
  | nil => exact .nil
  | cons n ns ih => exact .cons (covers_only n) ih

/-- Of single integers the ranges have single results, but of a power that they do not take. -/
theorem ranged_only (length : ns.length = op.arity) (small : ¬op.Great ns) :
    ∃ info, op.ranged (ns.map only) = between (op.exact (ns.map Int64.toInt))
      (op.exact (ns.map Int64.toInt)) info := by
  have shared : Within Info.somewhere (Info.all &&& Info.all) := by decide
  cases op with
  | neg =>
    obtain ⟨m, rfl⟩ := List.length_eq_one_iff.1 length
    refine ⟨Info.all, ?_⟩
    simpa [ranged, exact, only] using neg_between (by decide)
  | add =>
    obtain ⟨m, n, rfl⟩ := List.length_eq_two.1 length
    exact ⟨_, by simpa [ranged, exact, only] using add_between shared⟩
  | sub =>
    obtain ⟨m, n, rfl⟩ := List.length_eq_two.1 length
    exact ⟨_, by simpa [ranged, exact, only] using sub_between shared⟩
  | mul =>
    obtain ⟨m, n, rfl⟩ := List.length_eq_two.1 length
    refine ⟨Info.all &&& Info.all, ?_⟩
    simp only [ranged, exact, List.map_cons, List.map_nil, only, mul_between shared]
    rw [← List.map_nil, ← List.map_cons, ← List.map_cons, ← List.map_cons, ← List.map_cons, hull_eq]
    simp
  | pow =>
    obtain ⟨m, n, rfl⟩ := List.length_eq_two.1 length
    have hn : n.toInt ≤ Interval.greatestExponent :=
      Int.not_lt.1 fun h => small ⟨rfl, m, n, rfl, h⟩
    exact intPow_single shared hn

/-! ### Plain integers -/

/-- Plain results are the exact ones modulo `2 ^ 64`, but of a power with too great an exponent. -/
theorem plain_eq (length : ns.length = op.arity) (small : ¬op.Great ns) :
    op.plain ns = Int64.ofInt (op.exact (ns.map Int64.toInt)) := by
  cases op with
  | neg =>
    obtain ⟨m, rfl⟩ := List.length_eq_one_iff.1 length
    simp [plain, exact, Int64.ofInt_neg]
  | add =>
    obtain ⟨m, n, rfl⟩ := List.length_eq_two.1 length
    simp [plain, exact, Int64.ofInt_add]
  | sub =>
    obtain ⟨m, n, rfl⟩ := List.length_eq_two.1 length
    simp [plain, exact, Int64.ofInt_sub]
  | mul =>
    obtain ⟨m, n, rfl⟩ := List.length_eq_two.1 length
    simp [plain, exact, Int64.ofInt_mul]
  | pow =>
    obtain ⟨m, n, rfl⟩ := List.length_eq_two.1 length
    have hn : ¬Interval.greatestExponent < n.toInt := fun h => small ⟨rfl, m, n, rfl, h⟩
    have hlimit : Interval.greatestExponent ≤ Formula.greatestExponent := by decide
    have hmin : min n.toInt Formula.greatestExponent = n.toInt := by omega
    rw [plain, truncatedPower_eq, hmin]
    rfl

/-- A power with too great an exponent is not known to be anything. -/
theorem ranged_of_great (great : op.Great ns) (covers : List.Forall₂ Covers as ns) :
    op.ranged as = everything := by
  obtain ⟨rfl, m, n, rfl, hn⟩ := great
  obtain ⟨l, h, l', h', i, j, rfl, shared, -, hy⟩ := covers_pair covers
  exact intPow_great shared hy hn

/-- The ranges hold the plain result if and only if it is exact. -/
theorem enclosed_iff (length : ns.length = op.arity) :
    (∀ as, List.Forall₂ Covers as ns → (op.ranged as).isDefined = true →
      (op.ranged as).contains (.rational (op.plain ns).toInt) = true) ↔ op.Fits ns := by
  by_cases great : op.Great ns
  · refine iff_of_true (fun as covers _ => ?_) (.inr great)
    rw [ranged_of_great great covers]
    exact everything_encloses _
  · rw [Fits, or_iff_left great, plain_eq length great]
    constructor
    · intro hall
      obtain ⟨info, hranged⟩ := ranged_only length great
      have hexact := encloses length (forall₂_covers_only ns)
      have hdefined : (op.ranged (ns.map only)).isDefined = true := by
        simp only [contains, Bool.and_eq_true] at hexact
        exact hexact.1.1
      have hplain := hall _ (forall₂_covers_only ns) hdefined
      rw [hranged, contains_between] at hplain
      have heq : (Int64.ofInt (op.exact (ns.map Int64.toInt))).toInt =
          op.exact (ns.map Int64.toInt) := by
        exact_mod_cast le_antisymm hplain.2.2 hplain.2.1
      rw [← heq]
      exact ⟨Int64.le_toInt _, Int64.toInt_le _⟩
    · rintro ⟨hlow, hhigh⟩ as covers -
      rw [Int64.toInt_ofInt_of_le hlow (Int.lt_of_le_of_lt hhigh (by decide))]
      exact encloses length covers

/-! ### The standard library -/

/-- The descriptions of all other overloads. -/
def others : List Overload.Spec :=
  field.flatMap (fun a => [onReals a, onComplexes a]) ++ negations.tail ++ powers.tail ++
    logicOperators ++ namedFunctions

theorem others_not_int : ∀ s ∈ others, ¬∀ n ∈ s.arguments, n = "int" := by decide

theorem spec_of_ints {s : Overload.Spec} (hs : s ∈ overloads)
    (ints : ∀ n ∈ s.arguments, n = "int") : ∃ op, s = spec op := by
  have hother : s ∉ others := fun h => others_not_int s h ints
  simp only [others, List.mem_append, not_or] at hother
  obtain ⟨⟨⟨⟨hfield, hnegations⟩, hpowers⟩, hlogic⟩, hnamed⟩ := hother
  simp only [overloads, arithmeticOperators, List.mem_append] at hs
  rcases hs with ((((hs | hs) | hs) | hs) | hs) | hs
  · obtain ⟨a, ha, rfl⟩ := List.mem_map.1 hs
    simp only [ring, List.mem_cons, List.not_mem_nil, or_false] at ha
    rcases ha with rfl | rfl | rfl
    · exact ⟨add, rfl⟩
    · exact ⟨sub, rfl⟩
    · exact ⟨mul, rfl⟩
  · exact (hfield hs).elim
  · rcases List.mem_cons.1 hs with rfl | hs
    · exact ⟨neg, rfl⟩
    · exact (hnegations hs).elim
  · rcases List.mem_cons.1 hs with rfl | hs
    · exact ⟨pow, rfl⟩
    · exact (hpowers hs).elim
  · exact (hlogic hs).elim
  · exact (hnamed hs).elim

variable {o : Overload} {e : Evaluator}

/-- Of two descriptions, the first is for plain values and the second for ranges. -/
theorem makes_pair {s : Overload.Spec} {p q : Evaluator.Spec}
    (hs : s.evaluators = [(Mode.normal, p), (Mode.interval, q)]) (made : s.Makes o) :
    (o.evaluator? Mode.normal = some e → p.Makes e) ∧
    (o.evaluator? Mode.interval = some e → q.Makes e) := by
  have hmodes : Mode.normal ≠ Mode.interval := by decide
  constructor
  · intro found
    obtain ⟨r, hr, hmode, hmakes⟩ := made.evaluator found
    simp only [hs, List.mem_cons, List.not_mem_nil, or_false] at hr
    rcases hr with rfl | rfl
    · exact hmakes
    · exact absurd hmode.symm hmodes
  · intro found
    obtain ⟨r, hr, hmode, hmakes⟩ := made.evaluator found
    simp only [hs, List.mem_cons, List.not_mem_nil, or_false] at hr
    rcases hr with rfl | rfl
    · exact absurd hmode hmodes
    · exact hmakes

/-- What an operation that a sign stands for makes of two integers. -/
theorem call_binary {p : Evaluator.Spec} (makes : p.Makes e) (noFunction : p.function = none)
    (unasked : p.isIdentity = false) {token : String} (named : p.token = some token)
    (two : p.arguments.length = 2) {action : BinaryOp}
    (found : BinaryOp.ofToken? token = some action) (v w : Value) :
    e.call [v, w] = action.apply v w := by
  obtain ⟨types, -, hbuild⟩ := makes
  have htoken := Evaluator.Spec.implementation_of_token hbuild noFunction unasked named
  rw [two, Evaluator.ofToken?_two found] at htoken
  simp only [Evaluator.call, ← Option.some.inj htoken]

theorem call_plain (made : op.spec.Makes o) (found : o.evaluator? Mode.normal = some e)
    (length : ns.length = op.arity) : e.call (ns.map .int) = .int (op.plain ns) := by
  cases op with
  | neg =>
    obtain ⟨m, rfl⟩ := List.length_eq_one_iff.1 length
    obtain ⟨types, -, hbuild⟩ := (makes_pair (s := spec neg) rfl made).1 found
    have htoken := Evaluator.Spec.implementation_of_token hbuild rfl rfl rfl
    have hneg : Evaluator.ofToken? 1 "-" = some (.unary .neg) := by rfl
    simp only [Evaluator.call, ← Option.some.inj (hneg.symm.trans htoken)]
    rfl
  | add | sub | mul =>
    obtain ⟨m, n, rfl⟩ := List.length_eq_two.1 length
    exact call_binary ((makes_pair rfl made).1 found) rfl rfl rfl rfl rfl _ _
  | pow =>
    obtain ⟨m, n, rfl⟩ := List.length_eq_two.1 length
    exact ((makes_pair (s := spec pow) rfl made).1 found).call_function rfl

theorem call_ranged (made : op.spec.Makes o) (found : o.evaluator? Mode.interval = some e)
    {as : List (Interval Double)} (length : as.length = op.arity) :
    e.call (as.map .interval) = .interval (op.ranged as) := by
  cases op with
  | neg =>
    obtain ⟨a, rfl⟩ := List.length_eq_one_iff.1 length
    rw [((makes_pair (s := spec neg) rfl made).2 found).call_function rfl]
    exact Value.write_eq _ _
  | add | sub | mul | pow =>
    obtain ⟨a, b, rfl⟩ := List.length_eq_two.1 length
    rw [((makes_pair rfl made).2 found).call_function rfl]
    exact Value.write_eq _ _

end IntegerOperator

open IntegerOperator in
/-- Every operator on integers that has evaluators for both modes is one of the five. All ranges
that hold the operands have a result, and it holds the plain one if and only if the exact one is a
64-bit integer, or the operator is a power of so great an exponent that the result is everything. -/
theorem Environment.integers_standard (config : Config) {name : String} {o : Overload}
    {e f : Evaluator} (candidate : o ∈ (standard config).operators.candidates name)
    (integers : ∀ t ∈ o.arguments, t.name = "int") (plain : o.evaluator? Mode.normal = some e)
    (ranged : o.evaluator? Mode.interval = some f) :
    ∃ op : IntegerOperator, o.name = op.spec.name ∧ o.arguments.length = op.arity ∧
      (∀ ns, ns.length = op.arity → e.call (ns.map .int) = .int (op.plain ns)) ∧
      (∀ as, as.length = op.arity → f.call (as.map .interval) = .interval (op.ranged as)) ∧
      ∀ ns, ns.length = op.arity →
        (∀ as, List.Forall₂ Covers as ns → (op.ranged as).isDefined = true) ∧
        ((∀ as, List.Forall₂ Covers as ns → (op.ranged as).isDefined = true →
          (op.ranged as).contains (.rational (op.plain ns).toInt) = true) ↔ op.Fits ns) := by
  obtain ⟨s, hs, made⟩ := made_standard config candidate
  obtain ⟨hname, harguments⟩ := made.names
  have ints : ∀ n ∈ s.arguments, n = "int" := by
    rw [← harguments]
    exact List.forall_mem_map.2 integers
  obtain ⟨op, rfl⟩ := spec_of_ints hs ints
  refine ⟨op, hname, ?_, fun ns length => call_plain made plain length,
    fun as length => call_ranged made ranged length, fun ns length => ⟨fun as covers => ?_, ?_⟩⟩
  · rw [← List.length_map, harguments]
    cases op <;> rfl
  · have hexact := encloses length covers
    simp only [Interval.contains, Bool.and_eq_true] at hexact
    exact hexact.1.1
  · exact enclosed_iff length

namespace IntegerOperator

/-- The sum of `2 ^ 62` and itself is negative as a 64-bit integer, and positive as a range, be it
of exact numbers or of doubles. -/
theorem sum_not_enclosed :
    let ns : List Int64 := [4611686018427387904, 4611686018427387904]
    let points : List (Interval Double) := ns.map fun n => .point (.ofInt n.toInt)
    List.Forall₂ Covers (ns.map only) ns ∧ (ranged add (ns.map only)).isDefined = true ∧
      (ranged add (ns.map only)).contains (.rational (plain add ns).toInt) = false ∧
      (ranged add points).isDefined = true ∧
      (ranged add points).contains (.ofInt (plain add ns).toInt) = false := by
  refine ⟨forall₂_covers_only _, ?_⟩
  decide +kernel

/-- Of the operands three and four every range holds the sum of the standard library. -/
theorem sums_standard : ∃ o ∈ (Environment.standard {}).operators.candidates "+", ∃ e,
    o.evaluator? Mode.normal = some e ∧ e.call [.int 3, .int 4] = .int 7 ∧
    ∀ a b, Covers a 3 → Covers b 4 → (a.add b).contains (.rational 7) = true := by
  have hfirst : ∀ o ∈ ((Environment.standard {}).operators.candidates "+").head?,
      o.name = "+" ∧ o.arguments.map (·.name) = ["int", "int"] ∧
      (o.evaluator? Mode.normal).isSome ∧ (o.evaluator? Mode.interval).isSome := by
    decide +kernel
  have hsome : ((Environment.standard {}).operators.candidates "+").head?.isSome := by
    decide +kernel
  obtain ⟨o, ho⟩ := Option.isSome_iff_exists.1 hsome
  obtain ⟨hname, harguments, hplain, hranged⟩ := hfirst o ho
  obtain ⟨e, he⟩ := Option.isSome_iff_exists.1 hplain
  obtain ⟨f, hf⟩ := Option.isSome_iff_exists.1 hranged
  have candidate := List.mem_of_mem_head? ho
  have integers : ∀ t ∈ o.arguments, t.name = "int" := by
    have hall : ∀ n ∈ o.arguments.map (·.name), n = "int" := by
      rw [harguments]
      decide
    exact List.forall_mem_map.1 hall
  obtain ⟨op, hop, harity, hcall, -, henclosed⟩ :=
    Environment.integers_standard {} candidate integers he hf
  have hlength : o.arguments.length = 2 := by
    rw [← List.length_map, harguments]
    rfl
  cases op with
  | add =>
    refine ⟨o, candidate, e, he, hcall [3, 4] rfl, fun a b ha hb => ?_⟩
    obtain ⟨hdefined, hiff⟩ := henclosed [3, 4] rfl
    have covers : List.Forall₂ Covers [a, b] [3, 4] := .cons ha (.cons hb .nil)
    exact hiff.2 (.inl (by decide)) [a, b] covers (hdefined _ covers)
  | neg => exact absurd (hlength.symm.trans harity) (by decide)
  | _ => exact absurd (hname.symm.trans hop) (by decide)

end IntegerOperator

end Formula
