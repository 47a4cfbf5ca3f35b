import Formula.Program.Compile
import Formula.Proofs.Except
/-!
What each step of compilation does to the program under construction, if it succeeds.
-/

namespace Formula

/-! ### Sequences of steps -/

namespace Compile

variable {α β : Type} {b b' : Build}

@[simp] theorem run_bind_eq_ok {m : Compiler α} {f : α → Compiler β} {y : β} :
    (m >>= f).run b = .ok (y, b') ↔ ∃ x c, m.run b = .ok (x, c) ∧ (f x).run c = .ok (y, b') := by
  rw [StateT.run_bind, Except.bind_eq_ok]
  exact ⟨fun ⟨p, hm, hf⟩ => ⟨p.1, p.2, hm, hf⟩, fun ⟨x, c, hm, hf⟩ => ⟨(x, c), hm, hf⟩⟩

@[simp] theorem run_pure_eq_ok {x y : α} :
    (pure x : Compiler α).run b = .ok (y, b') ↔ x = y ∧ b = b' := by
  rw [StateT.run_pure, Except.pure_eq_ok, Prod.mk.injEq]

@[simp] theorem run_get_eq_ok {c : Build} :
    (get : Compiler Build).run b = .ok (c, b') ↔ b = c ∧ b = b' := by
  rw [StateT.run_get, Except.pure_eq_ok, Prod.mk.injEq]

@[simp] theorem run_set_eq_ok {c : Build} {u : PUnit} :
    (set c : Compiler PUnit).run b = .ok (u, b') ↔ c = b' := by
  rw [StateT.run_set, Except.pure_eq_ok, Prod.mk.injEq]
  simp

@[simp] theorem run_modify_eq_ok {f : Build → Build} {u : PUnit} :
    (modify f : Compiler PUnit).run b = .ok (u, b') ↔ f b = b' := by
  rw [StateT.run_modify, Except.pure_eq_ok, Prod.mk.injEq]
  simp

@[simp] theorem run_liftM_eq_ok {x : Except Error α} {y : α} :
    (liftM x : Compiler α).run b = .ok (y, b') ↔ x = .ok y ∧ b = b' := by
  cases x with
  | error e => exact ⟨fun h => (nomatch h), fun h => (nomatch h.1)⟩
  | ok z =>
    show Except.ok (z, b) = .ok (y, b') ↔ _
    simp

/-! ### What is looked up -/

theorem representation_eq_ok {t : MathType} {mode : Mode} {c : ConcreteType} :
    representation t mode = .ok c ↔ t.representation? mode = some c := by
  unfold representation
  cases t.representation? mode <;> simp

theorem typeOf_eq_ok {e : Expr} {t : MathType} : typeOf e = .ok t ↔ e.type? = some t := by
  unfold typeOf
  cases e.type? <;> simp

theorem castBetween_eq_ok {ctx : Context} {source target : ConcreteType}
    {c : Cast ConcreteCast} : castBetween ctx source target = .ok c ↔
      ctx.casts.concreteCast? source target = some c := by
  unfold castBetween
  cases ctx.casts.concreteCast? source target <;> simp

/-! ### Growth -/

/-- A program under construction extends another: bindings and constants have only been added behind
the earlier ones. -/
structure Build.Extends (b b' : Build) : Prop where
  bindings : b.bindings.toList <+: b'.bindings.toList
  constants : b.constants.toList <+: b'.constants.toList

theorem getElem?_of_prefix {xs ys : List α} (h : xs <+: ys) {i : Nat} {x : α}
    (hx : xs[i]? = some x) : ys[i]? = some x := by
  obtain ⟨more, rfl⟩ := h
  rw [List.getElem?_append_left (List.getElem?_eq_some_iff.1 hx).1, hx]

namespace Build.Extends

theorem refl (b : Build) : b.Extends b :=
  ⟨List.prefix_rfl, List.prefix_rfl⟩

theorem trans {b b' b'' : Build} (h : b.Extends b') (h' : b'.Extends b'') : b.Extends b'' :=
  ⟨h.bindings.trans h'.bindings, h.constants.trans h'.constants⟩

theorem getElem?_grown {xs ys : Array α} (h : xs.toList <+: ys.toList) {i : Nat} {x : α}
    (hx : xs[i]? = some x) : ys[i]? = some x := by
  rw [← Array.getElem?_toList] at hx ⊢
  exact getElem?_of_prefix h hx

theorem binding {b b' : Build} (h : b.Extends b') {i : Nat} {x : Binding}
    (hx : b.bindings[i]? = some x) : b'.bindings[i]? = some x :=
  getElem?_grown h.bindings hx

theorem constant {b b' : Build} (h : b.Extends b') {i : Nat} {v : Value}
    (hv : b.constants[i]? = some v) : b'.constants[i]? = some v :=
  getElem?_grown h.constants hv

end Build.Extends

/-! ### Constants and functions -/

/-- A constant is kept in the place of the one that is there, or in a new one. -/
theorem keepConstant_cases {v : Value} {x : Operand}
    (h : (keepConstant v).run b = .ok (x, b')) :
    (∃ i, b.constants[i]? = some v ∧ x = .constant i ∧ b' = b) ∨
    (v ∉ b.constants.toList ∧ x = .constant b.constants.size ∧
      b' = { b with constants := b.constants.push v }) := by
  unfold keepConstant at h
  simp only [run_bind_eq_ok, run_get_eq_ok] at h
  obtain ⟨_, _, ⟨rfl, rfl⟩, h⟩ := h
  cases hi : b.constants.findIdx? (· == v) with
  | some i =>
    rw [hi] at h
    obtain ⟨rfl, rfl⟩ := run_pure_eq_ok.1 h
    obtain ⟨hlt, heq, -⟩ := Array.findIdx?_eq_some_iff_getElem.1 hi
    refine .inl ⟨i, ?_, rfl, rfl⟩
    rw [Array.getElem?_eq_getElem hlt, eq_of_beq heq]
  | none =>
    rw [hi] at h
    simp only [run_bind_eq_ok, run_set_eq_ok, run_pure_eq_ok] at h
    obtain ⟨-, _, rfl, rfl, rfl⟩ := h
    refine .inr ⟨fun hmem => ?_, rfl, rfl⟩
    simpa using Array.findIdx?_eq_none_iff.1 hi v (Array.mem_toList_iff.1 hmem)

theorem keepConstant_run {v : Value} {x : Operand} (h : (keepConstant v).run b = .ok (x, b')) :
    ∃ i constants, x = .constant i ∧ b' = { b with constants } ∧ constants[i]? = some v ∧
      b.constants.toList <+: constants.toList := by
  rcases keepConstant_cases h with ⟨i, hi, rfl, rfl⟩ | ⟨-, rfl, rfl⟩
  · exact ⟨i, b'.constants, rfl, rfl, hi, List.prefix_rfl⟩
  · exact ⟨b.constants.size, b.constants.push v, rfl, rfl, by simp, by simp⟩

/-- A function is called in the place of the one of its origin, or in a new one. -/
theorem keepFunction_cases {f : Imported} {i : Nat}
    (h : (keepFunction f).run b = .ok (i, b')) :
    (i < b.functions.size ∧ b' = b) ∨
    (f.origin ∉ b.functions.toList.map (·.origin) ∧ i = b.functions.size ∧
      b' = { b with functions := b.functions.push f }) := by
  unfold keepFunction at h
  simp only [run_bind_eq_ok, run_get_eq_ok] at h
  obtain ⟨_, _, ⟨rfl, rfl⟩, h⟩ := h
  cases hi : b.functions.findIdx? (·.origin == f.origin) with
  | some i =>
    rw [hi] at h
    obtain ⟨rfl, rfl⟩ := run_pure_eq_ok.1 h
    exact .inl ⟨(Array.findIdx?_eq_some_iff_getElem.1 hi).1, rfl⟩
  | none =>
    rw [hi] at h
    simp only [run_bind_eq_ok, run_set_eq_ok, run_pure_eq_ok] at h
    obtain ⟨-, _, rfl, rfl, rfl⟩ := h
    refine .inr ⟨fun hmem => ?_, rfl, rfl⟩
    obtain ⟨g, hg, horigin⟩ := List.mem_map.1 hmem
    simpa [horigin] using Array.findIdx?_eq_none_iff.1 hi g (Array.mem_toList_iff.1 hg)

theorem keepFunction_run {f : Imported} {i : Nat} (h : (keepFunction f).run b = .ok (i, b')) :
    ∃ functions, b' = { b with functions } := by
  rcases keepFunction_cases h with ⟨-, rfl⟩ | ⟨-, -, rfl⟩
  · exact ⟨b'.functions, rfl⟩
  · exact ⟨_, rfl⟩

/-! ### Bindings -/

theorem bind_run {step : Step} {type : ConcreteType} {i : Nat}
    (h : (bind step type).run b = .ok (i, b')) :
    i = b.bindings.size ∧ b' = { b with bindings := b.bindings.push { step, type } } := by
  unfold bind at h
  simp only [run_bind_eq_ok, run_get_eq_ok, run_set_eq_ok, run_pure_eq_ok] at h
  obtain ⟨_, _, ⟨rfl, rfl⟩, -, _, rfl, rfl, rfl⟩ := h
  exact ⟨rfl, rfl⟩

/-- The reading of a variable on first use. -/
def readOf (ctx : Context) (name : String) (target : ConcreteType)
    (conversion? : Option Lift) : Step :=
  .read {
    name
    position? := ctx.options.exported.findIdx? (· == name)
    target
    conversion?
    isChecked := ctx.options.typechecks }

/-- The slot of a variable is the one it has, or a new one. -/
theorem variableSlot_run {ctx : Context} {name : String} {t : MathType} {target : ConcreteType}
    {i : Nat} (h : (variableSlot ctx name t target).run b = .ok (i, b')) :
    (b.reads.lookup name = some i ∧ b' = b) ∨
    (b.reads.lookup name = none ∧ ∃ conversion?,
      variableConversion ctx t target = .ok conversion? ∧ i = b.bindings.size ∧
      b' = { b with
        bindings := b.bindings.push { step := readOf ctx name target conversion?, type := target }
        reads := (name, i) :: b.reads }) := by
  unfold variableSlot at h
  simp only [run_bind_eq_ok, run_get_eq_ok] at h
  obtain ⟨_, _, ⟨rfl, rfl⟩, h⟩ := h
  cases hi : b.reads.lookup name with
  | some j =>
    rw [hi] at h
    obtain ⟨rfl, rfl⟩ := run_pure_eq_ok.1 h
    exact .inl ⟨rfl, rfl⟩
  | none =>
    rw [hi] at h
    simp only [run_bind_eq_ok, run_liftM_eq_ok, run_modify_eq_ok, run_pure_eq_ok] at h
    obtain ⟨conversion?, _, ⟨hconversion, rfl⟩, _, _, hbind, -, _, rfl, rfl, rfl⟩ := h
    obtain ⟨rfl, rfl⟩ := bind_run hbind
    exact .inr ⟨rfl, conversion?, hconversion, rfl, rfl⟩

/-- The slot of a conversion is the one it has, or a new one, which calls the function kept for it. -/
theorem conversionSlot_cases {c : ConcreteCast} {source i : Nat} {target : String}
    (h : (conversionSlot c source target).run b = .ok (i, b')) :
    (b.conversions.lookup (source, target) = some i ∧ b' = b) ∨
    (b.conversions.lookup (source, target) = none ∧ i = b.bindings.size ∧ ∃ f functions,
      (keepFunction
        { origin := .conversion c.source.name c.target.name, evaluator := c.evaluator }).run b =
          .ok (f, { b with functions }) ∧
      b' = { b with
        bindings := b.bindings.push { step := .convert f c (.slot source), type := c.target }
        functions
        conversions := ((source, target), i) :: b.conversions }) := by
  unfold conversionSlot at h
  simp only [run_bind_eq_ok, run_get_eq_ok] at h
  obtain ⟨_, _, ⟨rfl, rfl⟩, h⟩ := h
  cases hi : b.conversions.lookup (source, target) with
  | some j =>
    rw [hi] at h
    obtain ⟨rfl, rfl⟩ := run_pure_eq_ok.1 h
    exact .inl ⟨rfl, rfl⟩
  | none =>
    rw [hi] at h
    simp only [run_bind_eq_ok, run_modify_eq_ok, run_pure_eq_ok] at h
    obtain ⟨f, _, hkeep, _, _, hbind, -, _, rfl, rfl, rfl⟩ := h
    obtain ⟨functions, rfl⟩ := keepFunction_run hkeep
    obtain ⟨rfl, rfl⟩ := bind_run hbind
    exact .inr ⟨rfl, rfl, f, functions, hkeep, rfl⟩

theorem conversionSlot_run {c : ConcreteCast} {source i : Nat} {target : String}
    (h : (conversionSlot c source target).run b = .ok (i, b')) :
    (b.conversions.lookup (source, target) = some i ∧ b' = b) ∨
    (b.conversions.lookup (source, target) = none ∧ i = b.bindings.size ∧ ∃ f functions,
      b' = { b with
        bindings := b.bindings.push { step := .convert f c (.slot source), type := c.target }
        functions
        conversions := ((source, target), i) :: b.conversions }) := by
  rcases conversionSlot_cases h with hknown | ⟨hlookup, hi, f, functions, -, hb'⟩
  · exact .inl hknown
  · exact .inr ⟨hlookup, hi, f, functions, hb'⟩

end Compile

/-! ### Applications -/

/-- A step applies an evaluator to operands. -/
inductive Step.Applies : Step → Evaluator → List Operand → Prop
  | convert {f c x} : Applies (.convert f c x) c.evaluator [x]
  | binary {op e a b} (h : e.implementation = .binary op) : Applies (.binary op a b) e [a, b]
  | unary {op e a} (h : e.implementation = .unary op) : Applies (.unary op a) e [a]
  | call {f e xs} : Applies (.call f e xs) e xs

namespace Compile

variable {ctx : Context} {b b' : Build}

/-- An application is bound in a new slot. It stands in the program by itself, or calls the function
kept for it. -/
theorem applicationSlot_cases {o : Overload} {e : Evaluator} {xs : List Operand} {i : Nat}
    (h : (applicationSlot o e xs).run b = .ok (i, b')) :
    i = b.bindings.size ∧ ∃ step functions, step.Applies e xs ∧
      b' = { b with bindings := b.bindings.push { step, type := e.result }, functions } ∧
      ((functions = b.functions ∧
          ((∃ op x y, step = .binary op x y) ∨ ∃ op x, step = .unary op x)) ∨
        ∃ f, step = .call f e xs ∧
          (keepFunction { origin := .overload o.name o.rank, evaluator := e }).run b =
            .ok (f, { b with functions })) := by
  unfold applicationSlot at h
  split at h
  · rename_i himpl
    obtain ⟨rfl, rfl⟩ := bind_run h
    exact ⟨rfl, _, b.functions, .binary himpl, rfl, .inl ⟨rfl, .inl ⟨_, _, _, rfl⟩⟩⟩
  · rename_i himpl
    obtain ⟨rfl, rfl⟩ := bind_run h
    exact ⟨rfl, _, b.functions, .unary himpl, rfl, .inl ⟨rfl, .inr ⟨_, _, rfl⟩⟩⟩
  -- all that does not stand in the program by itself is called
  · obtain ⟨f, c, hkeep, hbind⟩ := run_bind_eq_ok.1 h
    obtain ⟨functions, rfl⟩ := keepFunction_run hkeep
    obtain ⟨rfl, rfl⟩ := bind_run hbind
    exact ⟨rfl, _, functions, .call, rfl, .inr ⟨f, rfl, hkeep⟩⟩

theorem applicationSlot_run {o : Overload} {e : Evaluator} {xs : List Operand} {i : Nat}
    (h : (applicationSlot o e xs).run b = .ok (i, b')) :
    i = b.bindings.size ∧ ∃ step functions, step.Applies e xs ∧
      b' = { b with bindings := b.bindings.push { step, type := e.result }, functions } := by
  obtain ⟨hi, step, functions, happlies, hb', -⟩ := applicationSlot_cases h
  exact ⟨hi, step, functions, happlies, hb'⟩

/-! ### Operands -/

/-- What an operand comes from: what was compiled, a converted constant or the slot of a
conversion. -/
theorem operand_run {x : Bound} {source target : ConcreteType} {a : Operand}
    (h : (operand ctx x source target).run b = .ok (a, b')) :
    (ctx.casts.concreteCast? source target = some .identity ∧ (keep x).run b = .ok (a, b')) ∨
    ∃ c, ctx.casts.concreteCast? source target = some (.convert c) ∧
      ((∃ v, x = .literal v ∧ (keepConstant (c.apply v)).run b = .ok (a, b')) ∨
        ∃ i j, x = .slot i ∧ (conversionSlot c i target.name).run b = .ok (j, b') ∧
          a = .slot j) := by
  unfold operand at h
  simp only [run_bind_eq_ok, run_liftM_eq_ok, castBetween_eq_ok] at h
  obtain ⟨cast, _, ⟨hcast, rfl⟩, h⟩ := h
  cases cast with
  | identity => exact .inl ⟨hcast, h⟩
  | convert c =>
    refine .inr ⟨c, hcast, ?_⟩
    cases x with
    | literal v => exact .inl ⟨v, rfl, h⟩
    | slot i =>
      simp only [run_bind_eq_ok, run_pure_eq_ok] at h
      obtain ⟨j, _, hslot, rfl, rfl⟩ := h
      exact .inr ⟨i, j, rfl, hslot, rfl⟩

/-! ### Expressions -/

theorem node_group_run {slot : TypeSlot} {c : Expr} {r : Bound × ConcreteType}
    (h : (node ctx (.group slot [c])).run b = .ok (r, b')) : (node ctx c).run b = .ok (r, b') := by
  simp only [node, run_bind_eq_ok, run_liftM_eq_ok] at h
  obtain ⟨-, _, ⟨-, rfl⟩, h⟩ := h
  exact h

theorem node_var_run {t : MathType} {name : String} {r : Bound × ConcreteType}
    (h : (node ctx (.var (.resolved t) name)).run b = .ok (r, b')) :
    ∃ target i, t.representation? ctx.options.mode = some target ∧
      (variableSlot ctx name t target).run b = .ok (i, b') ∧ r = (.slot i, target) := by
  simp only [node, run_bind_eq_ok, run_liftM_eq_ok, run_pure_eq_ok, typeOf_eq_ok,
    representation_eq_ok] at h
  obtain ⟨_, _, ⟨htype, rfl⟩, target, _, ⟨htarget, rfl⟩, i, _, hslot, rfl, rfl⟩ := h
  cases htype
  exact ⟨target, i, htarget, hslot, rfl⟩

theorem node_const_run {t : MathType} {v : Value} {typeName : String} {text : Option String}
    {r : Bound × ConcreteType}
    (h : (node ctx (.const (.resolved t) v typeName text)).run b = .ok (r, b')) :
    ∃ target w, t.representation? ctx.options.mode = some target ∧
      literal ctx t target v = .ok w ∧ r = (.literal w, target) ∧ b' = b := by
  simp only [node, run_bind_eq_ok, run_liftM_eq_ok, run_pure_eq_ok, typeOf_eq_ok,
    representation_eq_ok] at h
  obtain ⟨_, _, ⟨htype, rfl⟩, target, _, ⟨htarget, rfl⟩, w, _, ⟨hw, rfl⟩, rfl, rfl⟩ := h
  cases htype
  exact ⟨target, w, htarget, hw, rfl, rfl⟩

theorem node_op_run {slot : TypeSlot} {name : String} {cs : List Expr} {q : Resolution}
    {r : Bound × ConcreteType}
    (h : (node ctx (.op slot name cs (some q))).run b = .ok (r, b')) :
    ∃ e xs c i, q.overload.evaluator? ctx.options.mode = some e ∧
      (nodes ctx cs e.arguments).run b = .ok (xs, c) ∧
      (applicationSlot q.overload e xs).run c = .ok (i, b') ∧ r = (.slot i, e.result) := by
  simp only [node, run_bind_eq_ok, run_liftM_eq_ok, run_pure_eq_ok] at h
  obtain ⟨-, _, ⟨-, rfl⟩, ⟨o, e⟩, _, ⟨hchosen, rfl⟩, xs, c, hxs, i, _, hslot, rfl, rfl⟩ := h
  unfold chosen at hchosen
  simp only [Expr.resolution?] at hchosen
  cases hq : q.overload.evaluator? ctx.options.mode with
  | none =>
    rw [hq] at hchosen
    cases hchosen
  | some f =>
    rw [hq] at hchosen
    cases hchosen
    exact ⟨e, xs, c, i, rfl, hxs, hslot, rfl⟩

theorem nodes_nil_run {xs : List Operand} (h : (nodes ctx [] []).run b = .ok (xs, b')) :
    xs = [] ∧ b' = b := by
  obtain ⟨rfl, rfl⟩ := run_pure_eq_ok.1 h
  exact ⟨rfl, rfl⟩

theorem nodes_cons_run {e : Expr} {es : List Expr} {target : ConcreteType}
    {targets : List ConcreteType} {xs : List Operand}
    (h : (nodes ctx (e :: es) (target :: targets)).run b = .ok (xs, b')) :
    ∃ x source c a d as, (node ctx e).run b = .ok ((x, source), c) ∧
      (operand ctx x source target).run c = .ok (a, d) ∧
      (nodes ctx es targets).run d = .ok (as, b') ∧ xs = a :: as := by
  simp only [nodes, run_bind_eq_ok, run_pure_eq_ok] at h
  obtain ⟨⟨x, source⟩, c, hx, a, d, ha, as, _, has, rfl, rfl⟩ := h
  exact ⟨x, source, c, a, d, as, hx, ha, has, rfl⟩

/-- A compiled program is the one under construction in the end, with the root that is kept last. -/
theorem program_cases {e : Expr} {p : Program} (h : program ctx e = .ok p) :
    ∃ x b root b', (node ctx e).run {} = .ok ((x, p.returnType), b) ∧
      (keep x).run b = .ok (root, b') ∧ p = { p with
        bindings := b'.bindings
        constants := b'.constants
        functions := b'.functions
        root
        exported := ctx.options.exported } := by
  unfold program at h
  obtain ⟨⟨⟨root, returnType⟩, b'⟩, hrun, h⟩ := Except.bind_eq_ok.1 h
  obtain ⟨⟨x, type⟩, b, hx, hrun⟩ := run_bind_eq_ok.1 hrun
  obtain ⟨root', c, hkeep, hrun⟩ := run_bind_eq_ok.1 hrun
  obtain ⟨heq, rfl⟩ := run_pure_eq_ok.1 hrun
  cases heq
  cases h
  exact ⟨x, b, root, c, hx, hkeep, rfl⟩

/-- What a compiled program is made of. -/
theorem program_eq_ok {e : Expr} {p : Program} (h : program ctx e = .ok p) :
    ∃ x b root b', (node ctx e).run {} = .ok ((x, p.returnType), b) ∧
      (keep x).run b = .ok (root, b') ∧ p.bindings = b'.bindings ∧ p.constants = b'.constants ∧
      p.root = root ∧ p.exported = ctx.options.exported := by
  obtain ⟨x, b, root, b', hnode, hkeep, hp⟩ := program_cases h
  exact ⟨x, b, root, b', hnode, hkeep, congrArg (·.bindings) hp, congrArg (·.constants) hp,
    congrArg (·.root) hp, congrArg (·.exported) hp⟩

end Compile

/-- A compiled expression is a program for the mode that was asked for. -/
theorem Environment.compile_eq_ok {env : Environment} {options : CompileOptions} {e : Expr}
    {unit : CompiledUnit} (h : env.compile options e = .ok unit) :
    Compile.program (env.compileContext options) e = .ok unit.program := by
  unfold Environment.compile at h
  simp only [Except.bind_eq_ok, Except.pure_eq_ok] at h
  obtain ⟨-, -, p, hp, rfl⟩ := h
  exact hp

end Formula
