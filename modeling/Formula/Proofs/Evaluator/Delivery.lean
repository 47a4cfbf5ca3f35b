import Formula.Cast
/-!
The two ways to run an evaluator, for a new value and into a place. On a place that holds the
initial value of the result type they agree, but for one kind of evaluator: a copy that is to be
made in place is a copy of the type if a new value is asked for, and else what the type makes of
copying over. These are two functions that a type brings along, and nothing compares them.
-/

namespace Formula.Evaluator

variable {arguments : List ConcreteType} {result : ConcreteType} {delivery : Delivery}
  {isIdentity : Bool} {token : Option String} {function : Option Function} {e : Evaluator}

/-- What evaluators are built of: a function that hands over as is asked, a copy of one argument, or
what a token stands for. -/
inductive BuiltOf (arguments : List ConcreteType) (result : ConcreteType) (delivery : Delivery)
    (isIdentity : Bool) (token : Option String) : Option Function → Evaluator → Prop where
  | function (f : Function) (delivers : f.delivery = delivery) :
      BuiltOf arguments result delivery isIdentity token (some f)
        { arguments, result, delivery, isIdentity, implementation := .function f }
  | copy (asked : isIdentity = true) (single : arguments.length = 1)
      (overwrites : delivery = .inPlace → result.copyOver?.isSome) :
      BuiltOf arguments result delivery isIdentity token none
        { arguments, result, delivery, isIdentity, implementation := .identity }
  | token {implementation : Implementation} (unasked : isIdentity = false)
      (named : token.bind (ofToken? arguments.length) = some implementation) :
      BuiltOf arguments result delivery isIdentity token none
        { arguments, result, delivery := .fresh, isIdentity, implementation }

theorem builtOf_of_build
    (h : build arguments result delivery isIdentity token function = .ok e) :
    BuiltOf arguments result delivery isIdentity token function e := by
  unfold build at h
  split at h
  · cases h
  · cases function with
    | some f =>
      dsimp only at h
      split at h
      · rename_i delivers
        cases h
        exact .function f delivers
      · cases h
    | none =>
      dsimp only at h
      split at h
      · rename_i asked
        split at h
        · cases h
        · rename_i single
          split at h
          · cases h
          · rename_i overwrites
            cases h
            refine .copy asked (Classical.not_not.1 single) fun placed => ?_
            exact Option.isSome_iff_ne_none.2 fun hnone => overwrites ⟨placed, by simp [hnone]⟩
      · rename_i unasked
        split at h
        · rename_i named
          cases h
          exact .token (Bool.eq_false_iff.2 unasked) named
        · cases h

/-- A token stands for a value or an operation. -/
theorem ofToken?_ne_identity {n : Nat} {token : String} :
    ofToken? n token ≠ some .identity := by
  unfold ofToken?
  split <;> simp

/-- What an evaluator leaves on a fresh place is its value, unless it copies. -/
theorem callInto_initial (h : e.implementation ≠ .identity) (args : List Value) :
    e.callInto args e.result.initial = e.call args := by
  unfold callInto call
  split
  · rename_i runs
    rw [runs]
  · rename_i runs
    exact absurd runs h
  · rfl

theorem call_copy (h : e.implementation = .identity) (v : Value) :
    e.call [v] = e.result.copy v := by
  unfold call
  rw [h]

theorem callInto_copy_fresh (h : e.implementation = .identity) (fresh : e.delivery = .fresh)
    (v place : Value) : e.callInto [v] place = e.result.copy v := by
  unfold callInto
  rw [h]
  rw [fresh]
  cases e.result.copyOver? <;> rfl

theorem callInto_copy_inPlace (h : e.implementation = .identity) (placed : e.delivery = .inPlace)
    {copyOver : Value → Value → Value} (known : e.result.copyOver? = some copyOver)
    (v place : Value) : e.callInto [v] place = copyOver v place := by
  unfold callInto
  rw [h]
  simp only [known, placed]

/-- What a built evaluator leaves on a fresh place is its value, unless it was asked to copy in
place and the type does not copy over its initial value as it copies. -/
theorem callInto_initial_eq_call_iff
    (built : build arguments result delivery isIdentity token function = .ok e)
    {args : List Value} (length : args.length = e.arity) :
    e.callInto args e.result.initial = e.call args ↔
      (function = none → isIdentity = true → delivery = .inPlace →
        ∃ copyOver v, result.copyOver? = some copyOver ∧ args = [v] ∧
          copyOver v result.initial = result.copy v) := by
  cases builtOf_of_build built with
  | function f =>
    refine iff_of_true (callInto_initial (by simp) args) fun given => ?_
    cases given
  | token unasked named =>
    refine iff_of_true (callInto_initial ?_ args) fun _ asked => ?_
    · rintro rfl
      obtain ⟨token, -, htoken⟩ := Option.bind_eq_some_iff.1 named
      exact ofToken?_ne_identity htoken
    · cases unasked.symm.trans asked
  | copy asked single overwrites =>
    obtain ⟨v, rfl⟩ := List.length_eq_one_iff.1 (length.trans single)
    rw [call_copy rfl]
    cases delivery with
    | fresh =>
      refine iff_of_true (callInto_copy_fresh rfl rfl _ _) fun _ _ placed => ?_
      cases placed
    | inPlace =>
      obtain ⟨copyOver, known⟩ := Option.isSome_iff_exists.1 (overwrites rfl)
      rw [callInto_copy_inPlace rfl rfl known]
      constructor
      · intro agree _ _ _
        exact ⟨copyOver, v, known, rfl, agree⟩
      · intro h
        obtain ⟨copyOver', v', known', harg, agree⟩ := h rfl asked rfl
        cases known.symm.trans known'
        cases harg
        exact agree

/-! ### Counters -/

/-- A type of integers that are copied over as they are. -/
def counter (copy : Value → Value) : ConcreteType where
  name := "counter"
  isPrimitive := false
  initial := .int 0
  accepts v := v.kind == .int
  explain? := none
  copy
  copyOver? := some fun v _ => v
  stamp := 0

/-- The next integer. -/
def next : Value → Value
  | .int n => .int (n + 1)
  | v => v

/-- If a type counts its copies, what is copied in place is not the copy that is a new value. So a
conversion that copies gives one thing of a literal and another of what a slot holds. -/
theorem copies_differ : ∃ e c, build [counter next] (counter next) .inPlace true none none = .ok e ∧
    ConcreteCast.ofEvaluator e = .ok c ∧
    e.call [.int 5] = .int 6 ∧ e.callInto [.int 5] e.result.initial = .int 5 ∧
    c.apply (.int 5) = .int 6 ∧ c.applyInto (.int 5) c.target.initial = .int 5 :=
  ⟨_, _, rfl, rfl, rfl, rfl, rfl, rfl⟩

/-- If it copies integers as they are, the two ways agree. -/
theorem copies_agree : ∃ e, build [counter id] (counter id) .inPlace true none none = .ok e ∧
    [Value.int 5].length = e.arity ∧
    e.callInto [.int 5] e.result.initial = e.call [.int 5] := by
  let e : Evaluator := ⟨[counter id], counter id, .inPlace, true, .identity⟩
  have built : build [counter id] (counter id) .inPlace true none none = .ok e := rfl
  have length : [Value.int 5].length = e.arity := rfl
  refine ⟨e, built, length, (callInto_initial_eq_call_iff built length).2 fun _ _ _ => ?_⟩
  exact ⟨fun v _ => v, .int 5, rfl, rfl, rfl⟩

end Formula.Evaluator
