import Formula.Proofs.Evaluator.Delivery
import Formula.Proofs.Except
/-!
What is relied on when an evaluator is run: it does what its way of delivery says, on as many
arguments as it has types for. Building an evaluator sees to it, whatever it is built of and however
its description was put together.
-/

namespace Formula

/-- How many arguments are looked at from the front. A function is handed all of them. -/
def Implementation.looksAt : Implementation → Nat
  | function _ => 0
  | binary _ => 2
  | unary _ => 1
  | identity => 1

namespace Evaluator

/-! ### Looking at arguments -/

/-- The result on some arguments as a new value, if all arguments that are looked at are there. -/
def call? (e : Evaluator) (args : List Value) : Option Value :=
  match e.implementation with
  | .function (.fresh f) => some (f args)
  | .function (.inPlace f) => some (f args e.result.initial)
  | .binary op => do return op.apply (← args[0]?) (← args[1]?)
  | .unary op => do return op.apply (← args[0]?)
  | .identity => do return e.result.copy (← args[0]?)

/-- What a place holds after the result on some arguments is put there, if all arguments that are
looked at are there. -/
def callInto? (e : Evaluator) (args : List Value) (place : Value) : Option Value :=
  match e.implementation with
  | .function (.inPlace f) => some (f args place)
  | .identity =>
    match e.result.copyOver?, e.delivery with
    | some copyOver, .inPlace => do return copyOver (← args[0]?) place
    | _, _ => do return e.result.copy (← args[0]?)
  | _ => e.call? args

variable {e : Evaluator} {args : List Value}

theorem call?_eq_some (h : e.implementation.looksAt ≤ args.length) :
    e.call? args = some (e.call args) := by
  unfold call? call
  cases himpl : e.implementation with
  | function f => cases f <;> rfl
  | binary op =>
    rw [himpl] at h
    obtain ⟨a, rest, rfl⟩ := List.exists_cons_of_length_pos (Nat.lt_of_succ_lt h)
    obtain ⟨b, rest, rfl⟩ := List.exists_cons_of_length_pos (Nat.lt_of_succ_lt_succ h)
    rfl
  | unary op | identity =>
    rw [himpl] at h
    obtain ⟨a, rest, rfl⟩ := List.exists_cons_of_length_pos h
    rfl

theorem callInto?_eq_some (h : e.implementation.looksAt ≤ args.length) (place : Value) :
    e.callInto? args place = some (e.callInto args place) := by
  have hcall := call?_eq_some h
  unfold callInto? callInto
  cases himpl : e.implementation with
  | function f =>
    cases f with
    | fresh f => exact hcall
    | inPlace f => rfl
  | binary op | unary op => exact hcall
  | identity =>
    rw [himpl] at h
    obtain ⟨a, rest, rfl⟩ := List.exists_cons_of_length_pos h
    cases e.result.copyOver? with
    | none => rfl
    | some copyOver => cases e.delivery <;> rfl

/-! ### What is built -/

/-- What is run suits an evaluator, built with a function or without one: it hands over as the
evaluator says, and has as many arguments as it looks at. -/
def Suits (function : Option Function) (e : Evaluator) : Implementation → Prop
  | .function f => f.delivery = e.delivery ∧
      (function = none → e.arity = 0 ∧ ∃ v, f = .fresh fun _ => v)
  | .binary _ => e.arity = 2 ∧ e.delivery = .fresh
  | .unary _ => e.arity = 1 ∧ e.delivery = .fresh
  | .identity => e.arity = 1 ∧ (e.delivery = .inPlace → e.result.copyOver?.isSome)

/-- What may be relied on of an evaluator, built with a function or without one: only what may be
overwritten is written in place, what is run suits the evaluator, and all arguments that are looked
at are there. -/
structure Safe (function : Option Function) (e : Evaluator) : Prop where
  writable : e.delivery = .inPlace → e.result.isPrimitive = false
  suits : e.Suits function e.implementation
  call : ∀ args, args.length = e.arity → e.call? args = some (e.call args)
  callInto : ∀ args place, args.length = e.arity →
    e.callInto? args place = some (e.callInto args place)

variable {arguments : List ConcreteType} {result : ConcreteType} {delivery : Delivery}
  {isIdentity : Bool} {token : Option String} {function : Option Function}
  {implementation : Implementation}

theorem writable_of_build
    (h : build arguments result delivery isIdentity token function = .ok e)
    (placed : e.delivery = .inPlace) : e.result.isPrimitive = false := by
  have hresult : ¬(delivery = .inPlace ∧ result.isPrimitive = true) := by
    intro hand
    unfold build at h
    rw [if_pos hand] at h
    cases h
  cases builtOf_of_build h with
  | function f delivers => exact Bool.eq_false_iff.2 fun hprimitive => hresult ⟨placed, hprimitive⟩
  | copy => exact Bool.eq_false_iff.2 fun hprimitive => hresult ⟨placed, hprimitive⟩
  | token => cases placed

/-- A token stands for a literal, or for an operation on all arguments. -/
theorem ofToken?_eq_some {n : Nat} {token : String} (h : ofToken? n token = some implementation) :
    (n = 0 ∧ ∃ v, implementation = .function (.fresh fun _ => v)) ∨
    (n = 1 ∧ ∃ op, implementation = .unary op) ∨ (n = 2 ∧ ∃ op, implementation = .binary op) := by
  unfold ofToken? at h
  split at h
  · obtain ⟨v, -, rfl⟩ := Option.map_eq_some_iff.1 h
    exact .inl ⟨rfl, v, rfl⟩
  · obtain ⟨op, -, rfl⟩ := Option.map_eq_some_iff.1 h
    exact .inr (.inl ⟨rfl, op, rfl⟩)
  · obtain ⟨op, -, rfl⟩ := Option.map_eq_some_iff.1 h
    exact .inr (.inr ⟨rfl, op, rfl⟩)
  · cases h

theorem suits_of_build
    (h : build arguments result delivery isIdentity token function = .ok e) :
    e.Suits function e.implementation := by
  cases builtOf_of_build h with
  | function f delivers =>
    refine ⟨delivers, fun given => ?_⟩
    cases given
  | copy asked single overwrites => exact ⟨single, overwrites⟩
  | token unasked named =>
    obtain ⟨token, -, htoken⟩ := Option.bind_eq_some_iff.1 named
    rcases ofToken?_eq_some htoken with ⟨harity, v, rfl⟩ | ⟨harity, op, rfl⟩ | ⟨harity, op, rfl⟩
    · exact ⟨rfl, fun _ => ⟨harity, v, rfl⟩⟩
    · exact ⟨harity, rfl⟩
    · exact ⟨harity, rfl⟩

theorem Suits.looksAt_le {i : Implementation} (h : e.Suits function i) : i.looksAt ≤ e.arity := by
  cases i with
  | function f => exact Nat.zero_le _
  | binary op | unary op | identity => exact Nat.le_of_eq h.1.symm

/-- Whatever an evaluator is built of, it is safe. -/
theorem safe_of_build
    (h : build arguments result delivery isIdentity token function = .ok e) : Safe function e := by
  have hsuits := suits_of_build h
  exact ⟨writable_of_build h, hsuits, fun _ length => call?_eq_some (length ▸ hsuits.looksAt_le),
    fun _ place length => callInto?_eq_some (length ▸ hsuits.looksAt_le) place⟩

/-! ### Descriptions -/

namespace Spec

/-- A step in which a description is put together. -/
inductive Call where
  | delivered (delivery : Delivery)
  | identity
  | primitive (token : String)
  | computedBy (f : Function)

/-- The description after a step. -/
def Call.apply (s : Spec) : Call → Spec
  | delivered d => s.delivered d
  | identity => s.identity
  | primitive token => s.primitive token
  | computedBy f => s.computedBy f

/-- The description put together in some steps, from the names of the types. -/
def afterCalls (arguments : List String) (result : String) (calls : List Call) : Spec :=
  calls.foldl Call.apply { arguments, result }

/-- A description has a function if one is given in some step. -/
theorem function_afterCalls_eq_none {arguments : List String} {result : String}
    {calls : List Call} :
    (afterCalls arguments result calls).function = none ↔ ∀ f, Call.computedBy f ∉ calls := by
  unfold afterCalls
  have hall : ∀ s : Spec, (calls.foldl Call.apply s).function = none ↔
      s.function = none ∧ ∀ f, Call.computedBy f ∉ calls := by
    induction calls with
    | nil => simp
    | cons c calls ih =>
      intro s
      rw [List.foldl_cons, ih]
      cases c with
      | computedBy f =>
        exact iff_of_false (fun h => nomatch h.1) fun h => h.2 f List.mem_cons_self
      | delivered | identity | primitive =>
        simp [Call.apply, delivered, identity, primitive]
  rw [hall]
  exact and_iff_right rfl

theorem safe_of_build {s : Spec} {types : TypeRegistry} {e : Evaluator}
    (h : s.build types = .ok e) : Safe s.function e := by
  unfold build at h
  simp only [Except.bind_eq_ok] at h
  obtain ⟨arguments, -, result, -, h⟩ := h
  exact Evaluator.safe_of_build h

end Spec

/-- Every evaluator is safe that can be built: of any parts, and by any description, in whatever
order it is put together. A description without a function in it gives an evaluator without one. -/
theorem accepted_safe :
    (∀ arguments result delivery isIdentity token function e,
      build arguments result delivery isIdentity token function = .ok e → Safe function e) ∧
    ∀ arguments result calls types e,
      (Spec.afterCalls arguments result calls).build types = .ok e →
        Safe (Spec.afterCalls arguments result calls).function e ∧
        ((∀ f, Spec.Call.computedBy f ∉ calls) → Safe none e) := by
  constructor
  · intro arguments result delivery isIdentity token function e h
    exact safe_of_build h
  · intro arguments result calls types e h
    have hsafe := Spec.safe_of_build h
    refine ⟨hsafe, fun hnone => ?_⟩
    rwa [Spec.function_afterCalls_eq_none.2 hnone] at hsafe

/-- A copy of a counter in place is safe, and so is the sum of two: it was to be written in place,
but an operation gives a new value. -/
theorem counters_safe :
    ∃ copy sum, build [counter id] (counter id) .inPlace true none none = .ok copy ∧
      Safe none copy ∧
      (Spec.afterCalls ["counter", "counter"] "counter"
        [.primitive "+", .delivered .inPlace]).build
          { concrete := Directory.empty.insert "counter" (counter id) } = .ok sum ∧
      sum.delivery = .fresh ∧ Safe none sum := by
  let copy : Evaluator := ⟨[counter id], counter id, .inPlace, true, .identity⟩
  let sum : Evaluator := ⟨[counter id, counter id], counter id, .fresh, false, .binary .add⟩
  have hcopy : build [counter id] (counter id) .inPlace true none none = .ok copy := rfl
  have hsum : (Spec.afterCalls ["counter", "counter"] "counter"
      [.primitive "+", .delivered .inPlace]).build
        { concrete := Directory.empty.insert "counter" (counter id) } = .ok sum := rfl
  have hcalls : ∀ f, Spec.Call.computedBy f ∉ [.primitive "+", .delivered .inPlace] := by simp
  exact ⟨copy, sum, hcopy, accepted_safe.1 _ _ _ _ _ _ _ hcopy, hsum, rfl,
    (accepted_safe.2 _ _ _ _ _ hsum).2 hcalls⟩

end Evaluator

end Formula
