import Formula.Library.Casts
import Formula.Library.Operators
import Formula.Library.Types
import Formula.Proofs.Evaluator.Delivery
import Formula.Proofs.Except
import Formula.Proofs.Program.Run
/-!
The evaluators of the standard library take values of the kinds of their argument types to values of
the kind of their result type, and overwrite their place. Both are shown of the descriptions that
the evaluators are built from.
-/

namespace Formula

namespace Library

/-! ### Kinds of the types -/

/-- The kinds of the values of the concrete types. -/
def kinds : List (String × Kind) :=
  [("bool", .bool), ("int", .int), ("real", .real), ("complex", .complex),
    ("interval_bool", .boolInterval), ("interval_int", .interval), ("interval_real", .interval)]

/-- A value is of the kind of the types of a name. -/
def Belongs (type : String) (v : Value) : Prop :=
  ∀ k, kinds.lookup type = some k → v.kind = k

theorem belongs_iff {type : String} {k : Kind} (h : kinds.lookup type = some k) {v : Value} :
    Belongs type v ↔ v.kind = k := by
  constructor
  · exact fun hv => hv k h
  · intro hv l hl
    rw [hv, ← Option.some.inj (h.symm.trans hl)]

theorem belongs_of_kind {type : String} {v : Value} (h : kinds.lookup type = some v.kind) :
    Belongs type v :=
  (belongs_iff h).2 rfl

/-- A concrete type is one of the standard library. -/
def Built (c : ConcreteType) : Prop :=
  ∃ p ∈ concreteTypes, ∃ stamp, p.build stamp = .ok c

/-- The names of the representations in the mode `normal`. -/
def plainNames : List String :=
  ["bool", "int", "real", "complex"]

/-- What is known of a concrete type of the standard library. -/
structure Known (c : ConcreteType) : Prop where
  accepted : ∀ v, c.accepts v = true → Belongs c.name v
  copied : ∀ v, c.copy v = v
  copiedOver : ∀ f, c.copyOver? = some f → ∀ v place, f v place = v
  plain : c.name ∈ plainNames → c.explain? = none ∧ ∀ v, Belongs c.name v → c.accepts v = true

/-- A type has the parts that it is built from. -/
theorem parts_of_build {p : ConcreteType.Parts} {stamp : Nat} {c : ConcreteType}
    (h : p.build stamp = .ok c) : c.name = p.name ∧ p.accepts? = some c.accepts ∧
      c.explain? = p.explain? ∧ c.copy = p.copy?.getD id ∧ c.copyOver? = p.copyOver? := by
  unfold ConcreteType.Parts.build at h
  split at h
  · cases h
  · cases h
  · rename_i initial accepts hinitial haccepts
    split at h
    · cases h
    · split at h
      · cases h
      · cases h
        exact ⟨rfl, haccepts, rfl, rfl, rfl⟩

theorem known_of_parts {p : ConcreteType.Parts} {stamp : Nat} {c : ConcreteType}
    (h : p.build stamp = .ok c) (hcopy : p.copy? = none)
    (hover : ∀ f, p.copyOver? = some f → ∀ v place, f v place = v)
    (haccepts : ∀ accepts, p.accepts? = some accepts → ∀ v, accepts v = true → Belongs p.name v)
    (hplain : p.name ∈ plainNames → p.explain? = none ∧
      ∀ accepts, p.accepts? = some accepts → ∀ v, Belongs p.name v → accepts v = true) :
    Known c := by
  obtain ⟨hname, hfound, hexplain, hcopied, hcopiedOver⟩ := parts_of_build h
  constructor
  · rw [hname]
    exact haccepts _ hfound
  · intro v
    rw [hcopied, hcopy]
    rfl
  · rw [hcopiedOver]
    exact hover
  · rw [hname, hexplain]
    exact fun h => ⟨(hplain h).1, (hplain h).2 _ hfound⟩

theorem known_primitiveType {name : String} {initial : Value} {stamp : Nat} {c : ConcreteType}
    (hk : kinds.lookup name = some initial.kind)
    (h : (primitiveType name initial).build stamp = .ok c) : Known c := by
  refine known_of_parts h rfl (fun f hf => nomatch hf) ?_ fun _ => ⟨rfl, ?_⟩
  · intro accepts haccepts v hv
    cases haccepts
    exact (belongs_iff hk).2 (eq_of_beq hv)
  · intro accepts haccepts v hv
    cases haccepts
    exact beq_iff_eq.2 ((belongs_iff hk).1 hv)

theorem known_placedType {name : String} {initial : Value} {stamp : Nat} {c : ConcreteType}
    (hk : kinds.lookup name = some initial.kind)
    (h : (placedType name initial).build stamp = .ok c) : Known c := by
  refine known_of_parts h rfl ?_ ?_ fun _ => ⟨rfl, ?_⟩
  · intro f hf v place
    cases hf
    rfl
  · intro accepts haccepts v hv
    cases haccepts
    exact (belongs_iff hk).2 (eq_of_beq hv)
  · intro accepts haccepts v hv
    cases haccepts
    exact beq_iff_eq.2 ((belongs_iff hk).1 hv)

theorem kind_of_isIntegerInterval {v : Value} (h : isIntegerInterval v = true) :
    v.kind = .interval := by
  cases v with
  | interval a => rfl
  | _ => cases h

theorem known_of_built {c : ConcreteType} (h : Built c) : Known c := by
  obtain ⟨p, hp, stamp, h⟩ := h
  simp only [concreteTypes, List.mem_cons, List.not_mem_nil, or_false] at hp
  rcases hp with rfl | rfl | rfl | rfl | rfl | rfl | rfl
  · exact known_primitiveType (by decide) h
  · exact known_primitiveType (by decide) h
  · exact known_primitiveType (by decide) h
  · exact known_placedType (by decide) h
  · exact known_placedType (by decide) h
  -- intervals between integers are the only ones with words of their own, and are not plain
  · refine known_of_parts h rfl ?_ ?_ fun hname => absurd hname (by decide)
    · intro f hf v place
      cases hf
      rfl
    · intro accepts haccepts v hv
      cases haccepts
      have hk : kinds.lookup "interval_int" = some .interval := by decide
      exact (belongs_iff hk).2 (kind_of_isIntegerInterval hv)
  · exact known_placedType (by decide) h

end Library

/-! ### Functions -/

namespace Function

open Library

/-- What a function gives on some arguments, and for a place. -/
def result : Function → List Value → Value → Value
  | fresh f, args, _ => f args
  | inPlace f, args, place => f args place

/-- A function takes values of the types of some names to values of another, and does not look at
what its place held. -/
structure Lawful (f : Function) (arguments : List String) (type : String) : Prop where
  overwrites : ∀ args place place', args.length = arguments.length →
    f.result args place = f.result args place'
  sound : ∀ args place, List.Forall₂ (fun v n => Belongs n v) args arguments →
    Belongs type (f.result args place)

variable {a b c r : String}

theorem lawful_fresh₁ {f : Value → Value} (h : ∀ v, Belongs a v → Belongs r (f v)) :
    (fresh₁ f).Lawful [a] r where
  overwrites _ _ _ _ := rfl
  sound := by
    rintro _ place (_ | ⟨hv, _ | _⟩)
    exact h _ hv

theorem lawful_fresh₂ {f : Value → Value → Value}
    (h : ∀ v w, Belongs a v → Belongs b w → Belongs r (f v w)) : (fresh₂ f).Lawful [a, b] r where
  overwrites _ _ _ _ := rfl
  sound := by
    rintro _ place (_ | ⟨hv, _ | ⟨hw, _ | _⟩⟩)
    exact h _ _ hv hw

theorem lawful_fresh₃ {f : Value → Value → Value → Value}
    (h : ∀ u v w, Belongs a u → Belongs b v → Belongs c w → Belongs r (f u v w)) :
    (fresh₃ f).Lawful [a, b, c] r where
  overwrites _ _ _ _ := rfl
  sound := by
    rintro _ place (_ | ⟨hu, _ | ⟨hv, _ | ⟨hw, _ | _⟩⟩⟩)
    exact h _ _ _ hu hv hw

theorem lawful_inPlace₁ {f : Value → Value} (h : ∀ v, Belongs a v → Belongs r (f v)) :
    (inPlace₁ f).Lawful [a] r where
  overwrites args place place' hlen := by
    match args, hlen with
    | [v], _ => simp only [inPlace₁, result, Value.write_eq]
  sound := by
    rintro _ place (_ | ⟨hv, _ | _⟩)
    simp only [inPlace₁, result, Value.write_eq]
    exact h _ hv

theorem lawful_inPlace₂ {f : Value → Value → Value}
    (h : ∀ v w, Belongs a v → Belongs b w → Belongs r (f v w)) :
    (inPlace₂ f).Lawful [a, b] r where
  overwrites args place place' hlen := by
    match args, hlen with
    | [v, w], _ => simp only [inPlace₂, result, Value.write_eq]
  sound := by
    rintro _ place (_ | ⟨hv, _ | ⟨hw, _ | _⟩⟩)
    simp only [inPlace₂, result, Value.write_eq]
    exact h _ _ hv hw

theorem lawful_real {f : Double → Double} (hr : kinds.lookup r = some .real) :
    (real f).Lawful [a] r :=
  lawful_fresh₁ fun _ _ => belongs_of_kind hr

theorem lawful_part {f : Complex → Double} (hr : kinds.lookup r = some .real) :
    (part f).Lawful [a] r :=
  lawful_fresh₁ fun _ _ => belongs_of_kind hr

theorem lawful_complexPair {f : Complex → Complex → Complex}
    (hr : kinds.lookup r = some .complex) : (complexPair f).Lawful [a, b] r :=
  lawful_inPlace₂ fun _ _ _ _ => belongs_of_kind hr

theorem lawful_interval {f : Interval Double → Interval Double}
    (hr : kinds.lookup r = some .interval) : (interval f).Lawful [a] r :=
  lawful_inPlace₁ fun _ _ => belongs_of_kind hr

theorem lawful_intervalPair {f : Interval Double → Interval Double → Interval Double}
    (hr : kinds.lookup r = some .interval) : (intervalPair f).Lawful [a, b] r :=
  lawful_inPlace₂ fun _ _ _ _ => belongs_of_kind hr

theorem lawful_intervalComparison {f : Interval Double → Interval Double → BoolInterval}
    (hr : kinds.lookup r = some .boolInterval) : (intervalComparison f).Lawful [a, b] r :=
  lawful_inPlace₂ fun _ _ _ _ => belongs_of_kind hr

end Function

/-! ### Operations -/

namespace BinaryOp

variable {x y : Value}

theorem kind_arithmetic_int {f : Int64 → Int64 → Int64} {g : Double → Double → Double}
    (hx : x.kind = .int) (hy : y.kind = .int) : (arithmetic f g x y).kind = .int := by
  cases x <;> cases hx
  cases y <;> cases hy
  rfl

theorem kind_arithmetic_real {f : Int64 → Int64 → Int64} {g : Double → Double → Double}
    (hx : x.kind = .real) (hy : y.kind = .real) : (arithmetic f g x y).kind = .real := by
  cases x <;> cases hx
  cases y <;> cases hy
  rfl

theorem kind_quotient (x y : Value) : (quotient x y).kind = .real := by
  unfold quotient
  split <;> rfl

theorem kind_logic {f : Bool → Bool → Bool} (x y : Value) : (logic f x y).kind = .bool := by
  unfold logic
  split <;> rfl

theorem kind_comparison {f : Int64 → Int64 → Bool} {g : Double → Double → Bool} (x y : Value) :
    (comparison f g x y).kind = .bool := by
  unfold comparison
  split
  · rfl
  · rfl
  · split <;> rfl

end BinaryOp

/-! ### Descriptions -/

namespace Evaluator

open Library

/-- An evaluator takes values of its argument types to values of its result type, and overwrites its
place. -/
structure Lawful (e : Evaluator) : Prop where
  overwrites : e.Overwrites
  sound : ∀ args, List.Forall₂ (fun v c => Belongs c.name v) args e.arguments →
    Belongs e.result.name (e.call args)

/-- What building an evaluator makes of its parts. -/
theorem build_eq_ok {arguments : List ConcreteType} {result : ConcreteType} {delivery : Delivery}
    {isIdentity : Bool} {token : Option String} {function : Option Function} {e : Evaluator}
    (h : build arguments result delivery isIdentity token function = .ok e) :
    e.arguments = arguments ∧ e.result = result ∧
      ((∃ f, function = some f ∧ e.implementation = .function f) ∨
        (function = none ∧ isIdentity = true ∧ e.implementation = .identity) ∨
        (function = none ∧ isIdentity = false ∧
          token.bind (ofToken? arguments.length) = some e.implementation)) := by
  cases builtOf_of_build h with
  | function f => exact ⟨rfl, rfl, .inl ⟨f, rfl, rfl⟩⟩
  | copy asked => exact ⟨rfl, rfl, .inr (.inl ⟨rfl, asked, rfl⟩)⟩
  | token unasked named => exact ⟨rfl, rfl, .inr (.inr ⟨rfl, unasked, named⟩)⟩

namespace Spec

/-- A description whose evaluators are lawful: of a lawful function, of a copy to a type of the same
kind, or of an operation that is right for the kinds. -/
inductive Lawful : Spec → Prop
  | function {s f} (given : s.function = some f) (lawful : f.Lawful s.arguments s.result) : Lawful s
  | identity {s a} (noFunction : s.function = none) (asked : s.isIdentity = true)
      (arguments : s.arguments = [a]) (sound : ∀ v, Belongs a v → Belongs s.result v) : Lawful s
  | binary {s token op a b} (noFunction : s.function = none) (unasked : s.isIdentity = false)
      (named : s.token = some token) (found : BinaryOp.ofToken? token = some op)
      (arguments : s.arguments = [a, b])
      (sound : ∀ v w, Belongs a v → Belongs b w → Belongs s.result (op.apply v w)) : Lawful s
  | unary {s token op a} (noFunction : s.function = none) (unasked : s.isIdentity = false)
      (named : s.token = some token) (found : UnaryOp.ofToken? token = some op)
      (arguments : s.arguments = [a])
      (sound : ∀ v, Belongs a v → Belongs s.result (op.apply v)) : Lawful s

theorem unknown_eq_ok {α : Type} {what : String} {x : Except Error α} {y : α} :
    unknown what x = .ok y ↔ x = .ok y := by
  cases x <;> simp [unknown]

/-- The types of an evaluator are those of the names in its description. -/
theorem build_eq_ok {s : Spec} {types : TypeRegistry} {e : Evaluator}
    (h : s.build types = .ok e) :
    List.Forall₂ (fun n c => types.concrete.get? n = some c) s.arguments e.arguments ∧
      types.concrete.get? s.result = some e.result ∧
      ((∃ f, s.function = some f ∧ e.implementation = .function f) ∨
        (s.function = none ∧ s.isIdentity = true ∧ e.implementation = .identity) ∨
        (s.function = none ∧ s.isIdentity = false ∧
          s.token.bind (ofToken? s.arguments.length) = some e.implementation)) := by
  unfold build at h
  simp only [Except.bind_eq_ok, unknown_eq_ok, TypeRegistry.concreteType_eq_ok] at h
  obtain ⟨arguments, harguments, result, hresult, h⟩ := h
  have hall := Except.mapM_eq_ok.1 harguments
  obtain ⟨rfl, rfl, himpl⟩ := Evaluator.build_eq_ok h
  rw [← hall.length_eq] at himpl
  exact ⟨hall.imp fun _ _ h => TypeRegistry.concreteType_eq_ok.1 h, hresult, himpl⟩

section Implementation

variable {s : Spec} {types : TypeRegistry} {e : Evaluator} (h : s.build types = .ok e)

include h

theorem implementation_of_function {f : Function} (given : s.function = some f) :
    e.implementation = .function f := by
  obtain ⟨-, -, ⟨g, hg, himpl⟩ | ⟨hnone, -, -⟩ | ⟨hnone, -, -⟩⟩ := build_eq_ok h
  · rw [given] at hg
    cases hg
    exact himpl
  · cases given.symm.trans hnone
  · cases given.symm.trans hnone

theorem implementation_of_identity (noFunction : s.function = none)
    (asked : s.isIdentity = true) : e.implementation = .identity := by
  obtain ⟨-, -, ⟨g, hg, -⟩ | ⟨-, -, himpl⟩ | ⟨-, hasked, -⟩⟩ := build_eq_ok h
  · cases noFunction.symm.trans hg
  · exact himpl
  · cases asked.symm.trans hasked

theorem implementation_of_token (noFunction : s.function = none) (unasked : s.isIdentity = false)
    {token : String} (named : s.token = some token) :
    ofToken? s.arguments.length token = some e.implementation := by
  obtain ⟨-, -, ⟨g, hg, -⟩ | ⟨-, hasked, -⟩ | ⟨-, -, himpl⟩⟩ := build_eq_ok h
  · cases noFunction.symm.trans hg
  · cases unasked.symm.trans hasked
  · rw [named] at himpl
    exact himpl

end Implementation

end Spec

variable {e : Evaluator} {args : List Value} {place : Value}

theorem call_function {f : Function} (h : e.implementation = .function f) :
    e.call args = f.result args e.result.initial := by
  unfold call
  rw [h]
  cases f <;> rfl

theorem callInto_function {f : Function} (h : e.implementation = .function f) :
    e.callInto args place = f.result args place := by
  cases f with
  | fresh g =>
    simp only [callInto, h]
    exact call_function h
  | inPlace g => simp only [callInto, h, Function.result]

theorem call_identity {v : Value} (he : Known e.result) (h : e.implementation = .identity) :
    e.call [v] = v := by
  simp only [call, h, he.copied]

theorem callInto_identity {v : Value} (he : Known e.result) (h : e.implementation = .identity) :
    e.callInto [v] place = v := by
  simp only [callInto, h]
  split
  · rename_i copyOver hcopy _
    exact he.copiedOver copyOver hcopy v place
  · exact he.copied v

theorem ofToken?_two {token : String} {op : BinaryOp} (h : BinaryOp.ofToken? token = some op) :
    ofToken? 2 token = some (.binary op) := by
  simp [ofToken?, h]

theorem ofToken?_one {token : String} {op : UnaryOp} (h : UnaryOp.ofToken? token = some op) :
    ofToken? 1 token = some (.unary op) := by
  simp [ofToken?, h]

/-- Every concrete type that is registered is one of the standard library, under its name. -/
def Spec.Typed (types : TypeRegistry) : Prop :=
  ∀ name c, types.concrete.get? name = some c → c.name = name ∧ Built c

theorem Spec.names_of_build {types : TypeRegistry} (htypes : Spec.Typed types) {s : Spec}
    (h : s.build types = .ok e) : e.arguments.map (·.name) = s.arguments ∧
      e.result.name = s.result ∧ Built e.result ∧ ∀ c ∈ e.arguments, Built c := by
  obtain ⟨harguments, hresult, -⟩ := build_eq_ok h
  obtain ⟨hname, hbuilt⟩ := htypes _ _ hresult
  refine ⟨?_, hname, hbuilt, ?_⟩
  · refine List.ext_getElem (by simp [harguments.length_eq]) fun i hi hj => ?_
    rw [List.getElem_map]
    exact (htypes _ _ (harguments.get hj (by simpa using hi))).1
  · intro c hc
    obtain ⟨i, hi, rfl⟩ := List.mem_iff_getElem.1 hc
    exact (htypes _ _ (harguments.get (harguments.length_eq ▸ hi) hi)).2

theorem lawful_of_names {s : Spec} (hnames : e.arguments.map (·.name) = s.arguments)
    (hresult : e.result.name = s.result) (hover : e.Overwrites)
    (hsound : ∀ args, List.Forall₂ (fun v n => Belongs n v) args s.arguments →
      Belongs s.result (e.call args)) : e.Lawful := by
  refine ⟨hover, fun args h => ?_⟩
  rw [hresult]
  refine hsound args ?_
  rw [← hnames, List.forall₂_map_right_iff]
  exact h

/-- What is built from a lawful description is lawful. -/
theorem Spec.Lawful.lawful_of_build {s : Spec} (hs : s.Lawful) {types : TypeRegistry}
    (htypes : Spec.Typed types) (h : s.build types = .ok e) : e.Lawful := by
  obtain ⟨hnames, hresult, hbuilt, -⟩ := names_of_build htypes h
  have harity : e.arity = s.arguments.length := by rw [← hnames, List.length_map, arity]
  cases hs with
  | @function f given lawful =>
    have himpl := implementation_of_function h given
    refine lawful_of_names hnames hresult (fun args place hlen => ?_) fun args hargs => ?_
    · rw [callInto_function himpl, call_function himpl]
      exact lawful.overwrites _ _ _ (hlen.trans harity)
    · rw [call_function himpl]
      exact lawful.sound args _ hargs
  | @identity a noFunction asked arguments sound =>
    have himpl := implementation_of_identity h noFunction asked
    -- the types of the library copy a value as it is
    have hknown := known_of_built hbuilt
    refine lawful_of_names hnames hresult (fun args place hlen => ?_) fun args hargs => ?_
    · rw [harity, arguments] at hlen
      obtain ⟨v, rfl⟩ := List.length_eq_one_iff.1 hlen
      rw [callInto_identity hknown himpl, call_identity hknown himpl]
    · rw [arguments] at hargs
      obtain _ | ⟨hv, _ | _⟩ := hargs
      rw [call_identity hknown himpl]
      exact sound _ hv
  | @binary token op a b noFunction unasked named found arguments sound =>
    have htoken := implementation_of_token h noFunction unasked named
    rw [arguments] at htoken
    have himpl : e.implementation = .binary op :=
      (Option.some.inj ((ofToken?_two found).symm.trans htoken)).symm
    refine lawful_of_names hnames hresult (fun args place hlen => ?_) fun args hargs => ?_
    · simp only [callInto, himpl]
    · rw [arguments] at hargs
      obtain _ | ⟨hv, _ | ⟨hw, _ | _⟩⟩ := hargs
      simp only [call, himpl]
      exact sound _ _ hv hw
  | @unary token op a noFunction unasked named found arguments sound =>
    have htoken := implementation_of_token h noFunction unasked named
    rw [arguments] at htoken
    have himpl : e.implementation = .unary op :=
      (Option.some.inj ((ofToken?_one found).symm.trans htoken)).symm
    refine lawful_of_names hnames hresult (fun args place hlen => ?_) fun args hargs => ?_
    · simp only [callInto, himpl]
    · rw [arguments] at hargs
      obtain _ | ⟨hv, _ | _⟩ := hargs
      simp only [call, himpl]
      exact sound _ hv

end Evaluator

end Formula
