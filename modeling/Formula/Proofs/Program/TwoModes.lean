import Formula.Proofs.Program.Readiness
/-!
One expression compiled for two modes. The two programs share neither their steps nor their
conversions; but a relation between the values of a type in the one mode and in the other that
evaluators, conversions and constants keep is kept by the programs.
-/

namespace Formula

/-! ### Direct evaluation that succeeds -/

namespace Direct

open Compile

variable {ctx : Context} {a : Assignment} {v : Value} {c : ConcreteType}

/-- A value that takes no conversion is received as it is. -/
theorem received_of_kept {isChecked : Bool} {conversion? : Option Lift} {target : ConcreteType}
    {name : String} {w : Value}
    (kept : (conversion?.filter fun l => !target.accepts v && l.source.accepts v) = none)
    (h : received isChecked conversion? target name v = .ok w) : w = v := by
  simp only [received, kept] at h
  split at h
  · cases h
  · cases h
    rfl

theorem node_var_eq_ok {t : MathType} {name : String}
    (h : node ctx a (.var (.resolved t) name) = .ok (v, c)) :
    t.representation? ctx.options.mode = some c ∧ variableValue ctx a name t c = .ok v := by
  unfold node at h
  simp only [Except.bind_eq_ok, Except.pure_eq_ok, typeOf_eq_ok, representation_eq_ok] at h
  obtain ⟨u, hu, target, htarget, w, hw, heq⟩ := h
  cases hu
  cases heq
  exact ⟨htarget, hw⟩

/-- Where variables are not converted, their values are as they are given. -/
theorem value?_of_variableValue {t : MathType} {name : String} (casts : ctx.options.casts = false)
    (h : variableValue ctx a name t c = .ok v) : a.value? name = some v := by
  unfold variableValue variableConversion at h
  rw [casts] at h
  obtain ⟨conversion?, hconversion, h⟩ := Except.bind_eq_ok.1 h
  obtain rfl := Except.pure_eq_ok.1 hconversion
  cases hvalue : a.value? name with
  | none =>
    rw [hvalue] at h
    cases h
  | some x =>
    rw [hvalue] at h
    exact congrArg some (received_of_kept (Option.filter_none _) h).symm

theorem node_const_eq_ok {t : MathType} {x : Value} {typeName : String} {text : Option String}
    (h : node ctx a (.const (.resolved t) x typeName text) = .ok (v, c)) :
    ∃ s k, t.representation? ctx.defaultMode = some s ∧
      t.representation? ctx.options.mode = some c ∧ ctx.casts.concreteCast? s c = some k ∧
      v = k.carry x := by
  unfold node literal at h
  simp only [Except.bind_eq_ok, Except.pure_eq_ok, typeOf_eq_ok, representation_eq_ok,
    castBetween_eq_ok] at h
  obtain ⟨u, hu, target, htarget, w, ⟨s, hs, k, hk, rfl⟩, heq⟩ := h
  cases hu
  cases heq
  exact ⟨s, k, hs, htarget, hk, rfl⟩

theorem node_op_eq_ok {slot : TypeSlot} {name : String} {cs : List Expr} {r : Resolution}
    (h : node ctx a (.op slot name cs (some r)) = .ok (v, c)) :
    ∃ f vs, r.overload.evaluator? ctx.options.mode = some f ∧
      nodes ctx a cs f.arguments = .ok vs ∧ v = f.call vs ∧ c = f.result := by
  unfold node at h
  simp only [Except.bind_eq_ok, Except.pure_eq_ok] at h
  obtain ⟨⟨o, f⟩, hchosen, vs, hvs, heq⟩ := h
  cases heq
  exact ⟨f, vs, (chosen_eq_ok.1 hchosen).2, hvs, rfl, rfl⟩

theorem nodes_cons_eq_ok {e : Expr} {es : List Expr} {target : ConcreteType}
    {targets : List ConcreteType} {vs : List Value}
    (h : nodes ctx a (e :: es) (target :: targets) = .ok vs) :
    ∃ v source k ws, node ctx a e = .ok (v, source) ∧
      ctx.casts.concreteCast? source target = some k ∧ nodes ctx a es targets = .ok ws ∧
      vs = k.carry v :: ws := by
  unfold nodes at h
  simp only [Except.bind_eq_ok, Except.pure_eq_ok, castBetween_eq_ok] at h
  obtain ⟨⟨v, source⟩, hv, k, hk, ws, hws, rfl⟩ := h
  exact ⟨v, source, k, ws, hv, hk, hws, rfl⟩

end Direct

theorem Environment.evaluate_eq_ok {env : Environment} {options : CompileOptions} {e : Expr}
    {arguments : List Value} {scope : Scope} {v : Value}
    (h : env.evaluate options e arguments scope = .ok v) :
    ∃ c, Direct.node (env.compileContext options)
      { exported := options.exported, arguments, scope } e = .ok (v, c) := by
  unfold evaluate at h
  simp only [Except.bind_eq_ok, Except.pure_eq_ok] at h
  obtain ⟨⟨_, c⟩, hnode, rfl⟩ := h
  exact ⟨c, hnode⟩

/-! ### Relations between two modes -/

/-- Values in one mode and in another are related one by one, each by the relation of its type. -/
inductive RelatedAll (R : String → Value → Value → Prop) :
    List MathType → List Value → List Value → Prop
  | nil : RelatedAll R [] [] []
  | cons {t ts v vs w ws} (head : R t.name v w) (tail : RelatedAll R ts vs ws) :
      RelatedAll R (t :: ts) (v :: vs) (w :: ws)

namespace Environment

/-- How values of one type in one mode become values of another in another mode: along what leads
from the representation of the first to that of the second. -/
def Moves (env : Environment) (source : Mode) (u : MathType) (target : Mode) (t : MathType)
    (k : Cast ConcreteCast) : Prop :=
  ∃ s d, u.representation? source = some s ∧ t.representation? target = some d ∧
    env.casts.concreteCast? s d = some k

/-- A family of relations, one for each type, between values in two modes that all nodes of an
expression keep: the evaluators of its operators, the conversions of its operands and the values of
its constants. -/
structure Simulates (env : Environment) (mode₁ mode₂ : Mode) (R : String → Value → Value → Prop)
    (e : Expr) : Prop where
  operators : ∀ slot name cs r, .op slot name cs (some r) ∈ e.nodes →
    ∀ f₁ f₂, r.overload.evaluator? mode₁ = some f₁ → r.overload.evaluator? mode₂ = some f₂ →
      ∀ vs₁ vs₂, RelatedAll R r.overload.arguments vs₁ vs₂ →
        R r.overload.result.name (f₁.call vs₁) (f₂.call vs₂)
  conversions : ∀ slot name cs r, .op slot name cs (some r) ∈ e.nodes →
    ∀ c u t, (c, t) ∈ cs.zip r.overload.arguments → c.slot = .resolved u →
      ∀ k₁ k₂, env.Moves mode₁ u mode₁ t k₁ → env.Moves mode₂ u mode₂ t k₂ →
        ∀ v₁ v₂, R u.name v₁ v₂ → R t.name (k₁.carry v₁) (k₂.carry v₂)
  constants : ∀ t v typeName text, .const (.resolved t) v typeName text ∈ e.nodes →
    ∀ k₁ k₂, env.Moves env.config.defaultMode t mode₁ t k₁ →
      env.Moves env.config.defaultMode t mode₂ t k₂ → R t.name (k₁.carry v) (k₂.carry v)

/-- Values given in two modes are related where an expression reads both. -/
def Relates (R : String → Value → Value → Prop) (a₁ a₂ : Assignment) (e : Expr) : Prop :=
  ∀ t name, .var (.resolved t) name ∈ e.nodes → ∀ v₁ v₂, a₁.value? name = some v₁ →
    a₂.value? name = some v₂ → R t.name v₁ v₂

variable {env : Environment} {vars : VariableTypes} {R : String → Value → Value → Prop}
  {e c : Expr}

theorem Simulates.mono {mode₁ mode₂ : Mode} (h : env.Simulates mode₁ mode₂ R e)
    (hc : c.nodes ⊆ e.nodes) : env.Simulates mode₁ mode₂ R c where
  operators slot name cs r hn := h.operators slot name cs r (hc hn)
  conversions slot name cs r hn := h.conversions slot name cs r (hc hn)
  constants t v typeName text hn := h.constants t v typeName text (hc hn)

theorem Relates.mono {a₁ a₂ : Assignment} (h : Relates R a₁ a₂ e) (hc : c.nodes ⊆ e.nodes) :
    Relates R a₁ a₂ c :=
  fun t name hn => h t name (hc hn)

/-! ### Simulation -/

section Simulation

variable {options₁ options₂ : CompileOptions} {a₁ a₂ : Assignment}

/-- Where an expression has a value in two modes, the values are related, and are of the
representations of its type. -/
def RelatedAt (env : Environment) (R : String → Value → Value → Prop)
    (options₁ options₂ : CompileOptions) (a₁ a₂ : Assignment) (e : Expr) (t : MathType) : Prop :=
  ∀ v₁ c₁ v₂ c₂, Direct.node (env.compileContext options₁) a₁ e = .ok (v₁, c₁) →
    Direct.node (env.compileContext options₂) a₂ e = .ok (v₂, c₂) →
    R t.name v₁ v₂ ∧ Overload.Represents options₁.mode t c₁ ∧
      Overload.Represents options₂.mode t c₂

theorem moves_of_represents {mode : Mode} {u t : MathType} {source target : ConcreteType}
    {k : Cast ConcreteCast} (hu : Overload.Represents mode u source)
    (ht : Overload.Represents mode t target) (h : env.casts.concreteCast? source target = some k) :
    env.Moves mode u mode t k := by
  obtain ⟨s, hs, hname⟩ := hu
  obtain ⟨d, hd, hname'⟩ := ht
  exact ⟨s, d, hs, hd, (env.casts.concreteCast?_congr hname hname').trans h⟩

theorem related_operands {cs : List Expr} {ts : List MathType}
    {targets₁ targets₂ : List ConcreteType} {vs₁ vs₂ : List Value}
    (operands₁ : Operands env vars options₁.mode cs ts targets₁)
    (operands₂ : Operands env vars options₂.mode cs ts targets₂)
    (ih : ∀ c ∈ cs, ∀ u, c.HasType env vars u → env.RelatedAt R options₁ options₂ a₁ a₂ c u)
    (kept : ∀ c u t, (c, t) ∈ cs.zip ts → c.slot = .resolved u →
      ∀ k₁ k₂, env.Moves options₁.mode u options₁.mode t k₁ →
        env.Moves options₂.mode u options₂.mode t k₂ →
        ∀ v₁ v₂, R u.name v₁ v₂ → R t.name (k₁.carry v₁) (k₂.carry v₂))
    (h₁ : Direct.nodes (env.compileContext options₁) a₁ cs targets₁ = .ok vs₁)
    (h₂ : Direct.nodes (env.compileContext options₂) a₂ cs targets₂ = .ok vs₂) :
    RelatedAll R ts vs₁ vs₂ := by
  induction operands₁ generalizing targets₂ vs₁ vs₂ with
  | nil =>
    cases operands₂
    cases h₁
    cases h₂
    exact .nil
  | @cons c u t target₁ cs ts targets₁ typed _ represents₁ _ ih' =>
    cases operands₂ with
    | cons _ _ represents₂ rest₂ =>
      obtain ⟨v₁, c₁, k₁, ws₁, hv₁, hk₁, hws₁, rfl⟩ := Direct.nodes_cons_eq_ok h₁
      obtain ⟨v₂, c₂, k₂, ws₂, hv₂, hk₂, hws₂, rfl⟩ := Direct.nodes_cons_eq_ok h₂
      rw [List.forall_mem_cons] at ih
      obtain ⟨hrelated, hc₁, hc₂⟩ := ih.1 u typed v₁ c₁ v₂ c₂ hv₁ hv₂
      refine .cons ?_ (ih' rest₂ ih.2 (fun c u t hmem => kept c u t (by simp [hmem])) hws₁ hws₂)
      exact kept c u t (by simp) typed.slot_eq k₁ k₂ (moves_of_represents hc₁ represents₁ hk₁)
        (moves_of_represents hc₂ represents₂ hk₂) v₁ v₂ hrelated

/-- Every expression that has a type keeps a simulation. -/
theorem related_node (coherent : env.Coherent) {t : MathType} (he : e.HasType env vars t)
    (casts₁ : options₁.casts = false) (casts₂ : options₂.casts = false)
    (simulates : env.Simulates options₁.mode options₂.mode R e) (relates : Relates R a₁ a₂ e) :
    env.RelatedAt R options₁ options₂ a₁ a₂ e t := by
  intro v₁ c₁ v₂ c₂ h₁ h₂
  induction he generalizing v₁ c₁ v₂ c₂ with
  | @group c t child ih =>
    have hnodes : c.nodes ⊆ (Expr.group (.resolved t) [c]).nodes :=
      Expr.nodes_subset_group (by simp)
    rw [Direct.node] at h₁ h₂
    exact ih (simulates.mono hnodes) (relates.mono hnodes) _ _ _ _ h₁ h₂
  | @var name t known =>
    obtain ⟨hc₁, hv₁⟩ := Direct.node_var_eq_ok h₁
    obtain ⟨hc₂, hv₂⟩ := Direct.node_var_eq_ok h₂
    refine ⟨relates t name (by simp) v₁ v₂ ?_ ?_, ⟨c₁, hc₁, rfl⟩, ⟨c₂, hc₂, rfl⟩⟩
    · exact Direct.value?_of_variableValue casts₁ hv₁
    · exact Direct.value?_of_variableValue casts₂ hv₂
  | @const v typeName text t known belongs =>
    obtain ⟨s₁, k₁, hs₁, hc₁, hk₁, rfl⟩ := Direct.node_const_eq_ok h₁
    obtain ⟨s₂, k₂, hs₂, hc₂, hk₂, rfl⟩ := Direct.node_const_eq_ok h₂
    refine ⟨?_, ⟨c₁, hc₁, rfl⟩, ⟨c₂, hc₂, rfl⟩⟩
    exact simulates.constants t v typeName text (by simp) k₁ k₂ ⟨s₁, c₁, hs₁, hc₁, hk₁⟩
      ⟨s₂, c₂, hs₂, hc₂, hk₂⟩
  | @op name cs us r length operands choice ih =>
    obtain ⟨f₁, vs₁, hf₁, hvs₁, rfl, rfl⟩ := Direct.node_op_eq_ok h₁
    obtain ⟨f₂, vs₂, hf₂, hvs₂, rfl, rfl⟩ := Direct.node_op_eq_ok h₂
    have hself : Expr.op (.resolved r.overload.result) name cs (some r) ∈
        (Expr.op (.resolved r.overload.result) name cs (some r)).nodes := Expr.self_mem_nodes _
    have hchildren : ∀ c ∈ cs, ∀ u, c.HasType env vars u →
        env.RelatedAt R options₁ options₂ a₁ a₂ c u := by
      intro c hc u hu
      have hzip := Expr.mem_zip_of_slot length operands hc hu.slot_eq
      have hnodes : c.nodes ⊆ (Expr.op (.resolved r.overload.result) name cs (some r)).nodes :=
        Expr.nodes_subset_op hc
      exact ih c u hzip (simulates.mono hnodes) (relates.mono hnodes)
    have hrelated := related_operands
      (operands_of_choice coherent length operands choice hf₁)
      (operands_of_choice coherent length operands choice hf₂) hchildren
      (simulates.conversions _ name cs r hself) hvs₁ hvs₂
    have hrepresented := coherent.represented name _ (Expr.choice_spec length choice).1
    exact ⟨simulates.operators _ name cs r hself f₁ f₂ hf₁ hf₂ vs₁ vs₂ hrelated,
      hrepresented.result _ f₁ hf₁, hrepresented.result _ f₂ hf₂⟩

end Simulation

/-- Two programs for one expression give related values, if both give one and variables are not
converted: relations that the nodes of the expression keep between the modes, and that the given
values stand in, are kept by the programs as a whole. The evaluators of both modes must overwrite
their places. -/
theorem evaluateIn_related (reachable : env.Reachable) (vars : VariableTypes) {e : Expr}
    (resolved : (env.resolve vars e).2.hasErrors = false) {options₁ options₂ : CompileOptions}
    (casts₁ : options₁.casts = false) (casts₂ : options₂.casts = false)
    (overwrites₁ : ∀ f, env.Offers options₁.mode f → f.Overwrites)
    (overwrites₂ : ∀ f, env.Offers options₂.mode f → f.Overwrites)
    {unit₁ unit₂ : CompiledUnit}
    (compiled₁ : env.compile options₁ (env.resolve vars e).1 = .ok unit₁)
    (compiled₂ : env.compile options₂ (env.resolve vars e).1 = .ok unit₂)
    {R : String → Value → Value → Prop}
    (simulates : env.Simulates options₁.mode options₂.mode R (env.resolve vars e).1)
    {arguments₁ arguments₂ : List Value} (length₁ : arguments₁.length = options₁.exported.length)
    (length₂ : arguments₂.length = options₂.exported.length) {scope₁ scope₂ : Scope}
    (relates : Relates R
      { exported := options₁.exported, arguments := arguments₁, scope := scope₁ }
      { exported := options₂.exported, arguments := arguments₂, scope := scope₂ }
      (env.resolve vars e).1)
    (frame₁ frame₂ : Frame) {v₁ v₂ : Value}
    (value₁ : (unit₁.evaluateIn arguments₁ scope₁ frame₁).1 = .ok v₁)
    (value₂ : (unit₂.evaluateIn arguments₂ scope₂ frame₂).1 = .ok v₂) :
    ∃ t, (env.resolve vars e).1.slot = .resolved t ∧ R t.name v₁ v₂ := by
  have coherent := reachable.coherent
  obtain ⟨t, ht⟩ := Expr.hasType_resolve resolved
  rw [evaluateIn_eq_direct coherent ht compiled₁ overwrites₁ length₁] at value₁
  rw [evaluateIn_eq_direct coherent ht compiled₂ overwrites₂ length₂] at value₂
  obtain ⟨c₁, hnode₁⟩ := evaluate_eq_ok value₁
  obtain ⟨c₂, hnode₂⟩ := evaluate_eq_ok value₂
  have hrelated := related_node coherent ht casts₁ casts₂ simulates relates
  exact ⟨t, ht.slot_eq, (hrelated v₁ c₁ v₂ c₂ hnode₁ hnode₂).1⟩

end Environment

/-! ### Integers and their parities -/

namespace Parity

/-- The mode in which an integer stands for its parity. -/
def parity : Mode := "parity"

/-- Truth values as plain values. -/
def bool : ConcreteType where
  name := "bool"
  isPrimitive := true
  initial := .bool false
  accepts v := v.kind == .bool
  explain? := none
  copy := id
  copyOver? := none
  stamp := 0

/-- Integers as plain values. -/
def int : ConcreteType where
  name := "int"
  isPrimitive := true
  initial := .int 0
  accepts v := v.kind == .int
  explain? := none
  copy := id
  copyOver? := none
  stamp := 1

/-- Truth values, the same in both modes. -/
def boolType : MathType where
  name := "bool"
  representations := (Directory.empty.insert Mode.normal bool).insert parity bool

/-- Integers, of which the mode `parity` knows only whether they are odd. -/
def intType : MathType where
  name := "int"
  representations := (Directory.empty.insert Mode.normal int).insert parity bool

/-- Whether an integer is odd. -/
def odd (n : Int64) : Bool :=
  n.toInt % 2 = 1

/-- An evaluator of plain values. -/
def plain (arguments : List ConcreteType) (result : ConcreteType) (f : Function) : Evaluator where
  arguments
  result
  delivery := .fresh
  isIdentity := false
  implementation := .function f

/-- A truth value as 0 or 1. -/
def ofBool : Evaluator :=
  plain [bool] int (.fresh₁ fun a => .int (if a.toBool then 1 else 0))

/-- The parity of an integer. -/
def toParity : Evaluator :=
  plain [int] bool (.fresh₁ fun a => .bool (odd a.toInt))

/-- The sum of integers. -/
def add : Evaluator :=
  plain [int, int] int (.fresh₂ fun a b => .int (a.toInt + b.toInt))

/-- The parity of a sum. -/
def xor : Evaluator :=
  plain [bool, bool] bool (.fresh₂ fun a b => .bool (a.toBool ^^ b.toBool))

/-- The sum as an operator. -/
def sum : Overload where
  name := "+"
  arguments := [intType, intType]
  result := intType
  evaluators := (Directory.empty.insert Mode.normal add).insert parity xor

theorem formed_sum : sum.Formed := by
  have bare := Overload.Formed.bare "+" [intType, intType] intType
  have normal := @Overload.Formed.attach _ _ Mode.normal add bare rfl
  exact @Overload.Formed.attach _ _ parity xor normal rfl

/-- What is registered. -/
def requests : List Request :=
  [.concreteType bool, .concreteType int, .mathType boolType, .mathType intType,
    .mathCast (.between boolType intType), .concreteCast ofBool, .concreteCast toParity,
    .overload sum formed_sum]

/-- An environment with sums of integers, as which truth values count too. -/
def env : Environment :=
  requests.foldl Environment.after {}

theorem reachable_env : env.Reachable :=
  .after (.after (.after (.after (.after (.after (.after (.after (.empty {}) _) _) _) _) _) _) _) _

theorem candidate_env {name : String} {o : Overload} (h : o ∈ env.operators.candidates name) :
    ∃ rank, o = { sum with rank } := by
  rcases OperatorRegistry.mem_candidates_register h with h | h
  · cases h
  · exact h

theorem known_env {name : String} {t : MathType}
    (h : env.types.mathematical.get? name = some t) :
    (name = "bool" ∧ t = boolType) ∨ (name = "int" ∧ t = intType) := by
  rcases Directory.get?_insert_eq_some h with h | h
  · exact .inr h
  · rcases Directory.get?_insert_eq_some h with h | h
    · exact .inl h
    · cases h

theorem given_env {t : MathType} (h : env.Gives t) : t = boolType ∨ t = intType := by
  cases h with
  | known known => exact (known_env known).imp And.right And.right
  | result candidate =>
    obtain ⟨rank, rfl⟩ := candidate_env candidate
    exact .inr rfl

theorem conversion_env {source target : String} {c : ConcreteCast}
    (h : CastRegistry.find? env.casts.concrete source target = some c) :
    (source = "bool" ∧ target = "int" ∧ c.evaluator = ofBool) ∨
    (source = "int" ∧ target = "bool" ∧ c.evaluator = toParity) := by
  rcases CastRegistry.find?_enter_eq_some h with ⟨rfl, rfl, rfl⟩ | h
  · exact .inr ⟨rfl, rfl, rfl⟩
  · rcases CastRegistry.find?_enter_eq_some h with ⟨rfl, rfl, rfl⟩ | h
    · exact .inl ⟨rfl, rfl, rfl⟩
    · cases h

theorem offers_env {mode : Mode} {f : Evaluator} (h : env.Offers mode f) :
    ∃ arguments result g, f = plain arguments result (.fresh g) := by
  cases h with
  | overload known found =>
    obtain ⟨rank, rfl⟩ := candidate_env known
    rcases Directory.get?_insert_eq_some found with ⟨-, rfl⟩ | found
    · exact ⟨_, _, _, rfl⟩
    · rcases Directory.get?_insert_eq_some found with ⟨-, rfl⟩ | found
      · exact ⟨_, _, _, rfl⟩
      · cases found
  | conversion known =>
    obtain ⟨source, target, c, hfind, rfl⟩ := known
    rcases conversion_env hfind with ⟨-, -, hc⟩ | ⟨-, -, hc⟩
    · exact ⟨_, _, _, hc⟩
    · exact ⟨_, _, _, hc⟩

theorem overwrites_env {mode : Mode} {f : Evaluator} (h : env.Offers mode f) : f.Overwrites := by
  obtain ⟨arguments, result, g, rfl⟩ := offers_env h
  exact fun _ _ _ => rfl

/-- An integer is related to its parity, and a truth value to itself. -/
def Stands (type : String) (v w : Value) : Prop :=
  if type = "int" then ∃ n, v = .int n ∧ w = .bool (odd n) else ∃ b, v = .bool b ∧ w = .bool b

theorem odd_add (a b : Int64) : odd (a + b) = (odd a ^^ odd b) := by
  unfold odd
  rw [Int64.toInt_add, Int.bmod_def]
  split <;> by_cases ha : a.toInt % 2 = 1 <;> by_cases hb : b.toInt % 2 = 1 <;>
    simp [ha, hb] <;> omega

/-- What a conversion makes of a value is told by the names of its types. -/
theorem carry_env {source target : ConcreteType} {k : Cast ConcreteCast}
    (h : env.casts.concreteCast? source target = some k) (v : Value) : k.carry v =
      if source.name = target.name then v
      else if target.name = "int" then .int (if v.toBool then 1 else 0)
      else .bool (odd v.toInt) := by
  cases k with
  | identity =>
    rw [if_pos (CastRegistry.concreteCast?_eq_identity h)]
    rfl
  | convert c =>
    have hcarry : (Cast.convert c).carry v = c.evaluator.call [v] := rfl
    rcases conversion_env (CastRegistry.concreteCast?_eq_convert h) with
      ⟨hsource, htarget, hc⟩ | ⟨hsource, htarget, hc⟩
    · rw [hcarry, hc, hsource, htarget]
      rfl
    · rw [hcarry, hc, hsource, htarget]
      rfl

theorem carry_of_moves {mode mode' : Mode} {u t : MathType} {s d : ConcreteType}
    {k : Cast ConcreteCast} (h : env.Moves mode u mode' t k) (hs : u.representation? mode = some s)
    (hd : t.representation? mode' = some d) (v : Value) : k.carry v =
      if s.name = d.name then v
      else if d.name = "int" then .int (if v.toBool then 1 else 0)
      else .bool (odd v.toInt) := by
  obtain ⟨s', d', hs', hd', hk⟩ := h
  obtain rfl := Option.some.inj (hs.symm.trans hs')
  obtain rfl := Option.some.inj (hd.symm.trans hd')
  exact carry_env hk v

/-- Sums, conversions and constants stand for their parities, in every expression. -/
theorem simulates_env {vars : VariableTypes} {e : Expr} {t : MathType}
    (he : e.HasType env vars t) : env.Simulates Mode.normal parity Stands e where
  operators slot name cs r hn f₁ f₂ hf₁ hf₂ vs₁ vs₂ hvs := by
    obtain ⟨_, hop⟩ := he.of_mem_nodes hn
    cases hop with
    | op length operands choice =>
      obtain ⟨rank, hr⟩ := candidate_env (Expr.choice_spec length choice).1
      rw [hr] at hf₁ hf₂ hvs ⊢
      obtain rfl : add = f₁ := Option.some.inj hf₁
      obtain rfl : xor = f₂ := Option.some.inj hf₂
      rcases hvs with _ | ⟨⟨a, rfl, rfl⟩, _ | ⟨⟨b, rfl, rfl⟩, _ | _⟩⟩
      exact ⟨a + b, rfl, congrArg Value.bool (odd_add a b).symm⟩
  conversions slot name cs r hn c u t hmem hslot k₁ k₂ h₁ h₂ v₁ v₂ hv := by
    obtain ⟨_, hop⟩ := he.of_mem_nodes hn
    cases hop with
    | op length operands choice =>
      obtain ⟨rank, hr⟩ := candidate_env (Expr.choice_spec length choice).1
      obtain ⟨hc, ht⟩ := List.of_mem_zip hmem
      rw [hr] at ht
      obtain rfl : t = intType := by simpa [sum] using ht
      have hu := operands c u (Expr.mem_zip_of_slot length operands hc hslot)
      -- a truth value becomes a number in the mode `normal` only
      rcases given_env hu.gives with rfl | rfl
      · obtain ⟨b, rfl, rfl⟩ := hv
        rw [carry_of_moves h₁ rfl rfl, carry_of_moves h₂ rfl rfl]
        cases b
        · exact ⟨0, rfl, rfl⟩
        · exact ⟨1, rfl, rfl⟩
      · rw [carry_of_moves h₁ rfl rfl, carry_of_moves h₂ rfl rfl]
        exact hv
  constants t v typeName text hn k₁ k₂ h₁ h₂ := by
    obtain ⟨_, hconst⟩ := he.of_mem_nodes hn
    cases hconst with
    | const known belongs =>
      rcases given_env (.known known) with rfl | rfl
      · have hv := belongs bool rfl
        rw [carry_of_moves h₁ rfl rfl, carry_of_moves h₂ rfl rfl]
        cases v with
        | bool b => exact ⟨b, rfl, rfl⟩
        | _ => simp [ConcreteType.complaint, bool, Value.kind] at hv
      · have hv := belongs int rfl
        rw [carry_of_moves h₁ rfl rfl, carry_of_moves h₂ rfl rfl]
        cases v with
        | int n => exact ⟨n, rfl, rfl⟩
        | _ => simp [ConcreteType.complaint, int, Value.kind] at hv

/-- The expression `b + (n + 3)` for a truth value `b` and an integer `n`. -/
def shifted : Expr :=
  .op .pending "+" [.var .pending "b",
    .group .pending [.op .pending "+" [.var .pending "n",
      .const .pending (.int 3) "int" none] none]] none

/-- The types of its variables. -/
def shiftedTypes : VariableTypes :=
  (Directory.empty.insert "b" "bool").insert "n" "int"

/-- Values of the variables: a truth value and an integer. -/
def shiftedScope : Scope :=
  (Directory.empty.insert "b" (.bool true)).insert "n" (.int 4)

/-- What stands for them: the truth value and a parity. -/
def shiftedParities : Scope :=
  (Directory.empty.insert "b" (.bool true)).insert "n" (.bool false)

theorem relates_shifted : Environment.Relates Stands
    { exported := [], arguments := [], scope := shiftedScope }
    { exported := [], arguments := [], scope := shiftedParities }
    (env.resolve shiftedTypes shifted).1 := by
  have hresolved : (env.resolve shiftedTypes shifted).2.hasErrors = false := by decide +kernel
  obtain ⟨_, he⟩ := Expr.hasType_resolve hresolved
  intro t name hn v₁ v₂ h₁ h₂
  obtain ⟨_, hvar⟩ := he.of_mem_nodes hn
  cases hvar with
  | var known =>
    rcases Directory.get?_insert_eq_some h₁ with ⟨rfl, rfl⟩ | h₁
    · obtain rfl : Value.bool false = v₂ := Option.some.inj h₂
      rcases known_env known with ⟨heq, -⟩ | ⟨-, rfl⟩
      · exact absurd heq (by decide)
      · exact ⟨4, rfl, rfl⟩
    · rcases Directory.get?_insert_eq_some h₁ with ⟨rfl, rfl⟩ | h₁
      · obtain rfl : Value.bool true = v₂ := Option.some.inj h₂
        rcases known_env known with ⟨-, rfl⟩ | ⟨heq, -⟩
        · exact ⟨true, rfl, rfl⟩
        · exact absurd heq (by decide)
      · cases h₁

/-- With `b` true and `n = 4` the first program gives 8 and the second that this is even: there the
truth value is lifted and the constant is not, here it is the other way round. -/
theorem evaluateIn_shifted :
    ∃ unit₁ unit₂, env.compile {} (env.resolve shiftedTypes shifted).1 = .ok unit₁ ∧
      env.compile { mode := parity } (env.resolve shiftedTypes shifted).1 = .ok unit₂ ∧
      unit₁.evaluateWith [] shiftedScope = .ok (.int 8) ∧
      unit₂.evaluateWith [] shiftedParities = .ok (.bool false) ∧
      ∃ t, (env.resolve shiftedTypes shifted).1.slot = .resolved t ∧
        Stands t.name (.int 8) (.bool false) := by
  have hresolved : (env.resolve shiftedTypes shifted).2.hasErrors = false := by decide +kernel
  have hrun₁ : (env.compile {} (env.resolve shiftedTypes shifted).1).toOption.map
      (fun unit => unit.evaluateWith [] shiftedScope) = some (.ok (.int 8)) := by decide +kernel
  have hrun₂ : (env.compile { mode := parity } (env.resolve shiftedTypes shifted).1).toOption.map
      (fun unit => unit.evaluateWith [] shiftedParities) = some (.ok (.bool false)) := by
    decide +kernel
  obtain ⟨_, he⟩ := Expr.hasType_resolve hresolved
  cases hunit₁ : env.compile {} (env.resolve shiftedTypes shifted).1 with
  | error err =>
    rw [hunit₁] at hrun₁
    cases hrun₁
  | ok unit₁ =>
    cases hunit₂ : env.compile { mode := parity } (env.resolve shiftedTypes shifted).1 with
    | error err =>
      rw [hunit₂] at hrun₂
      cases hrun₂
    | ok unit₂ =>
      rw [hunit₁] at hrun₁
      rw [hunit₂] at hrun₂
      have hvalue₁ : unit₁.evaluateWith [] shiftedScope = .ok (.int 8) := Option.some.inj hrun₁
      have hvalue₂ : unit₂.evaluateWith [] shiftedParities = .ok (.bool false) :=
        Option.some.inj hrun₂
      exact ⟨unit₁, unit₂, rfl, rfl, hvalue₁, hvalue₂,
        Environment.evaluateIn_related reachable_env shiftedTypes hresolved rfl rfl
          (fun _ => overwrites_env) (fun _ => overwrites_env) hunit₁ hunit₂ (simulates_env he) rfl
          rfl relates_shifted _ _ hvalue₁ hvalue₂⟩

end Parity

end Formula
