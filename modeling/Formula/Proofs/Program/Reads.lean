import Formula.Proofs.Expr.Variables
import Formula.Proofs.Program.Frames
/-!
What a program reads. A compiled expression reads each of its variables once, in the order in which
they are met, and nothing but a reading can fail: the first that does is the error of the run.
-/

namespace Formula

/-! ### Readings -/

/-- The reading that a step is, if it is one. -/
def Step.read? : Step → Option VariableRead
  | read r => some r
  | _ => none

theorem Step.read?_eq_some {s : Step} {r : VariableRead} : s.read? = some r ↔ s = .read r := by
  cases s <;> simp [read?]

/-- The readings among bindings, in turn. -/
def readsOf (bs : List Binding) : List VariableRead :=
  bs.filterMap fun b => b.step.read?

theorem readsOf_cons_of_none {b : Binding} {bs : List Binding} (h : b.step.read? = none) :
    readsOf (b :: bs) = readsOf bs := by
  simp [readsOf, h]

theorem readsOf_cons_of_some {b : Binding} {bs : List Binding} {r : VariableRead}
    (h : b.step.read? = some r) : readsOf (b :: bs) = r :: readsOf bs := by
  simp [readsOf, h]

theorem Step.Applies.read?_eq_none {s : Step} {e : Evaluator} {xs : List Operand}
    (h : s.Applies e xs) : s.read? = none := by
  cases h <;> rfl

theorem readsOf_push_read {bs : Array Binding} {r : VariableRead} {type : ConcreteType} :
    readsOf (bs.push { step := .read r, type }).toList = readsOf bs.toList ++ [r] := by
  simp [readsOf, Step.read?]

theorem readsOf_push_of_none {bs : Array Binding} {x : Binding} (h : x.step.read? = none) :
    readsOf (bs.push x).toList = readsOf bs.toList := by
  simp [readsOf, h]

/-! ### What compilation reads -/

namespace Compile

/-- Two programs under construction read the same, and have the same slots for variables. -/
structure Build.SameReads (b b' : Build) : Prop where
  bindings : readsOf b'.bindings.toList = readsOf b.bindings.toList
  reads : b'.reads = b.reads

variable {ctx : Context} {b b' : Build}

theorem keepConstant_sameReads {v : Value} {a : Operand}
    (h : (keepConstant v).run b = .ok (a, b')) : b.SameReads b' := by
  obtain ⟨i, constants, -, rfl, -, -⟩ := keepConstant_run h
  exact ⟨rfl, rfl⟩

theorem keep_sameReads {x : Bound} {a : Operand} (h : (keep x).run b = .ok (a, b')) :
    b.SameReads b' := by
  cases x with
  | slot i =>
    obtain ⟨-, rfl⟩ := run_pure_eq_ok.1 h
    exact ⟨rfl, rfl⟩
  | literal v => exact keepConstant_sameReads h

theorem conversionSlot_sameReads {c : ConcreteCast} {source i : Nat} {target : String}
    (h : (conversionSlot c source target).run b = .ok (i, b')) : b.SameReads b' := by
  rcases conversionSlot_run h with ⟨-, rfl⟩ | ⟨-, -, f, functions, rfl⟩
  · exact ⟨rfl, rfl⟩
  · exact ⟨readsOf_push_of_none rfl, rfl⟩

theorem operand_sameReads {x : Bound} {source target : ConcreteType} {a : Operand}
    (h : (operand ctx x source target).run b = .ok (a, b')) : b.SameReads b' := by
  rcases operand_run h with ⟨-, hkeep⟩ | ⟨c, -, ⟨v, -, hkeep⟩ | ⟨i, j, -, hslot, -⟩⟩
  · exact keep_sameReads hkeep
  · exact keepConstant_sameReads hkeep
  · exact conversionSlot_sameReads hslot

theorem applicationSlot_sameReads {o : Overload} {e : Evaluator} {xs : List Operand} {i : Nat}
    (h : (applicationSlot o e xs).run b = .ok (i, b')) : b.SameReads b' := by
  obtain ⟨-, step, functions, happlies, rfl⟩ := applicationSlot_run h
  exact ⟨readsOf_push_of_none happlies.read?_eq_none, rfl⟩

namespace Typing

variable {T : Typing}

/-- A reading is that of a variable of a type. -/
def ReadsAs (T : Typing) (r : VariableRead) (v : String × Option MathType) : Prop :=
  ∃ t target conversion?, v.2 = some t ∧ t.representation? T.options.mode = some target ∧
    variableConversion T.context t target = .ok conversion? ∧
    readOf T.context v.1 target conversion? = .read r

/-- A program under construction reads the variables noted, and these are the ones with a slot. -/
structure Noted (T : Typing) (b : Build) (seen : List (String × Option MathType)) : Prop where
  reads : List.Forall₂ T.ReadsAs (readsOf b.bindings.toList) seen
  slots : ∀ name, b.reads.lookup name = none ↔ name ∉ seen.map Prod.fst

variable {seen : List (String × Option MathType)}

theorem noted_empty : T.Noted {} [] :=
  ⟨.nil, fun _ => by simp⟩

theorem Noted.congr (hn : T.Noted b seen) (h : b.SameReads b') : T.Noted b' seen := by
  constructor
  · rw [h.bindings]
    exact hn.reads
  · intro name
    rw [h.reads]
    exact hn.slots name

theorem variableSlot_noted {name : String} {t : MathType} {target : ConcreteType} {i : Nat}
    (hn : T.Noted b seen) (represented : t.representation? T.options.mode = some target)
    (h : (variableSlot T.context name t target).run b = .ok (i, b')) :
    T.Noted b' (Expr.noteVariable seen (name, some t)) := by
  rw [Expr.noteVariable_eq]
  rcases variableSlot_run h with ⟨hlookup, rfl⟩ | ⟨hlookup, conversion?, hconversion, -, rfl⟩
  · have hmem : name ∈ seen.map Prod.fst := by
      by_contra hname
      rw [(hn.slots name).2 hname] at hlookup
      cases hlookup
    rw [if_pos hmem]
    exact hn
  · rw [if_neg ((hn.slots name).1 hlookup)]
    constructor
    · rw [readOf, readsOf_push_read]
      apply List.rel_append hn.reads
      exact .cons ⟨t, target, conversion?, rfl, represented, hconversion, rfl⟩ .nil
    · intro other
      have hother := hn.slots other
      by_cases heq : other = name
      · subst heq
        simp
      · rw [Directory.lookup_cons_ite, if_neg heq, hother]
        simp [heq]

theorem nodes_noted {cs : List Expr} {targets : List ConcreteType} {xs : List Operand}
    (ih : ∀ c ∈ cs, ∀ seen b b' r, T.Noted b seen → (node T.context c).run b = .ok (r, b') →
      T.Noted b' (c.occurrences.foldl Expr.noteVariable seen))
    (length : cs.length = targets.length) (hn : T.Noted b seen)
    (h : (nodes T.context cs targets).run b = .ok (xs, b')) :
    T.Noted b' ((cs.flatMap Expr.occurrences).foldl Expr.noteVariable seen) := by
  induction cs generalizing targets xs b seen with
  | nil =>
    obtain rfl := List.eq_nil_of_length_eq_zero length.symm
    obtain ⟨-, rfl⟩ := nodes_nil_run h
    exact hn
  | cons c cs ih' =>
    obtain ⟨target, targets, rfl⟩ := List.exists_cons_of_length_eq_add_one length.symm
    obtain ⟨x, source, b₁, a, b₂, as, hnode, hoperand, hnodes, -⟩ := nodes_cons_run h
    rw [List.forall_mem_cons] at ih
    rw [List.flatMap_cons, List.foldl_append]
    have hn₁ := ih.1 _ _ _ _ hn hnode
    have hn₂ := hn₁.congr (operand_sameReads hoperand)
    exact ih' ih.2 (Nat.succ.inj length) hn₂ hnodes

/-- Compiling an expression that has a type notes its variables behind those noted before. -/
theorem node_noted {e : Expr} {t : MathType} {r : Bound × ConcreteType} (hT : T.Closed)
    (he : Expr.HasType T.env T.vars e t) (hn : T.Noted b seen)
    (h : (node T.context e).run b = .ok (r, b')) :
    T.Noted b' (e.occurrences.foldl Expr.noteVariable seen) := by
  induction he generalizing b b' r seen with
  | @group c t child ih =>
    rw [Expr.occurrences_group, List.flatMap_singleton]
    exact ih hn (node_group_run h)
  | @var name t known =>
    obtain ⟨target, i, represented, hslot, -⟩ := node_var_run h
    exact variableSlot_noted hn represented hslot
  | const known belongs =>
    obtain ⟨target, w, -, -, -, rfl⟩ := node_const_run h
    exact hn
  | @op name cs ts q length operands choice ih =>
    obtain ⟨e, xs, d, i, hevaluator, hnodes, hslot, -⟩ := node_op_run h
    have hchildren : ∀ c ∈ cs, ∀ seen b b' r, T.Noted b seen →
        (node T.context c).run b = .ok (r, b') →
        T.Noted b' (c.occurrences.foldl Expr.noteVariable seen) := by
      intro c hc seen b b' r hn h
      obtain ⟨u, hzip⟩ := Expr.exists_mem_zip length hc
      exact ih c u hzip hn h
    have harity := length_arguments hT length choice hevaluator
    rw [Expr.occurrences_op]
    exact (nodes_noted hchildren harity hn hnodes).congr (applicationSlot_sameReads hslot)

/-- A compiled program reads the used variables of the expression, in their order. -/
theorem program_reads {e : Expr} {t : MathType} {p : Program} (hT : T.Closed)
    (he : Expr.HasType T.env T.vars e t) (h : program T.context e = .ok p) :
    List.Forall₂ T.ReadsAs (readsOf p.bindings.toList) e.usedVariables := by
  obtain ⟨x, b, root, b', hnode, hkeep, hbindings, -, -, -⟩ := program_eq_ok h
  have hnoted := (node_noted hT he noted_empty hnode).congr (keep_sameReads hkeep)
  rw [hbindings]
  exact hnoted.reads

theorem ReadsAs.name_eq {r : VariableRead} {v : String × Option MathType} (h : T.ReadsAs r v) :
    r.name = v.1 := by
  obtain ⟨t, target, conversion?, -, -, -, hr⟩ := h
  cases hr
  rfl

theorem ReadsAs.position?_eq {r : VariableRead} {v : String × Option MathType}
    (h : T.ReadsAs r v) : r.position? = T.options.exported.findIdx? (· == v.1) := by
  obtain ⟨t, target, conversion?, -, -, -, hr⟩ := h
  cases hr
  rfl

end Typing

end Compile

/-! ### Runs -/

/-- The error that a reading fails with, if it fails. -/
def VariableRead.fault? (r : VariableRead) (inputs : Inputs) : Option Error :=
  match r.receive inputs with
  | .ok _ => none
  | .error err => some err

theorem VariableRead.fault?_eq_some {r : VariableRead} {inputs : Inputs} {err : Error} :
    r.fault? inputs = some err ↔ r.receive inputs = .error err := by
  unfold fault?
  cases r.receive inputs <;> simp

/-- Whether a reading fails does not depend on the place. -/
theorem VariableRead.run_eq_error {r : VariableRead} {inputs : Inputs} {place : Value}
    {err : Error} : r.run inputs place = .error err ↔ r.fault? inputs = some err := by
  rw [fault?_eq_some, run, receive]
  cases r.value inputs with
  | error err' => rfl
  | ok v =>
    simp only [Except.ok_bind, conversionOf?, Direct.received]
    cases r.conversion?.filter fun l => !r.target.accepts v && l.source.accepts v with
    | some l => simp [pure, Except.pure]
    | none =>
      cases if r.isChecked then r.target.complaint v else none with
      | none => simp [pure, Except.pure]
      | some complaint => exact Iff.rfl

theorem VariableRead.run_succeeds {r : VariableRead} {inputs : Inputs} {place : Value}
    (h : r.fault? inputs = none) : ∃ v, r.run inputs place = .ok v := by
  cases hrun : r.run inputs place with
  | ok v => exact ⟨v, rfl⟩
  | error err =>
    rw [run_eq_error.1 hrun] at h
    cases h

/-- A step that reads nothing succeeds. -/
theorem Step.run_succeeds {s : Step} (h : s.read? = none) (inputs : Inputs) (slots : Array Value)
    (place : Value) : ∃ v, s.run inputs slots place = .ok v := by
  cases s with
  | read r => cases h
  | convert | binary | unary | call => exact ⟨_, rfl⟩

namespace Program

variable {inputs inputs' : Inputs} {index : Nat} {slots : Array Value} {bs bs' : List Binding}
  {err : Error}

/-- A run of bindings fails with the error of the first reading that fails. -/
theorem runFrom_fst_eq_error : (runFrom inputs index slots bs).1 = .error err ↔
    (readsOf bs).findSome? (·.fault? inputs) = some err := by
  induction bs generalizing index slots with
  | nil => simp [runFrom, readsOf]
  | cons b bs ih =>
    cases hread : b.step.read? with
    | none =>
      obtain ⟨v, hv⟩ := Step.run_succeeds hread inputs slots (slots.getD index default)
      rw [runFrom_cons_ok hv, ih, readsOf_cons_of_none hread]
    | some r =>
      have hb : b.step = .read r := Step.read?_eq_some.1 hread
      rw [readsOf_cons_of_some hread, List.findSome?_cons]
      cases hfault : r.fault? inputs with
      | some err' =>
        have hstep : b.step.run inputs slots (slots.getD index default) = .error err' := by
          rw [hb]
          exact VariableRead.run_eq_error.2 hfault
        rw [runFrom_cons_error hstep]
        simp
      | none =>
        obtain ⟨v, hv⟩ := @VariableRead.run_succeeds r inputs (slots.getD index default) hfault
        have hstep : b.step.run inputs slots (slots.getD index default) = .ok v := by
          rw [hb]
          exact hv
        rw [runFrom_cons_ok hstep]
        exact ih

variable {p : Program} {arguments : List Value} {scope : Scope} {frame : Frame}

theorem run_fst_eq_error (length : arguments.length = p.exported.length) :
    (p.run arguments scope frame).1 = .error err ↔
      (readsOf p.bindings.toList).findSome?
        (·.fault? { arguments, scope, constants := p.constants }) = some err := by
  rw [run, if_neg (not_not.2 length)]
  dsimp only
  generalize (if frame.slots.size = p.bindings.size then frame else p.newFrame) = start
  generalize ({ arguments, scope, constants := p.constants } : Inputs) = inputs
  rw [← @runFrom_fst_eq_error inputs 0 start.slots]
  rcases runFrom inputs 0 start.slots p.bindings.toList with ⟨_ | _, left⟩
  · simp
  · simp

end Program

/-! ### Runs that are alike -/

theorem Operand.fetch_congr {inputs inputs' : Inputs} (h : inputs.constants = inputs'.constants)
    (slots : Array Value) (a : Operand) : a.fetch inputs slots = a.fetch inputs' slots := by
  cases a with
  | slot i => rfl
  | constant i => exact congrArg (·.getD i default) h

/-- A step that reads nothing depends on the constants of its inputs alone. -/
theorem Step.run_congr {s : Step} (hs : s.read? = none) {inputs inputs' : Inputs}
    (h : inputs.constants = inputs'.constants) (slots : Array Value) (place : Value) :
    s.run inputs slots place = s.run inputs' slots place := by
  have hfetch : Operand.fetch inputs slots = Operand.fetch inputs' slots := by
    funext a
    exact Operand.fetch_congr h slots a
  cases s with
  | read r => cases hs
  | convert | binary | unary | call => simp only [run, hfetch]

/-- Two bindings have one type and do the same, each with inputs of its own. -/
structure Binding.Alike (inputs inputs' : Inputs) (b b' : Binding) : Prop where
  type : b.type = b'.type
  run : ∀ slots place, b.step.run inputs slots place = b'.step.run inputs' slots place

theorem Binding.Alike.map_type {inputs inputs' : Inputs} {bs bs' : List Binding}
    (h : List.Forall₂ (Alike inputs inputs') bs bs') : bs.map (·.type) = bs'.map (·.type) := by
  induction h with
  | nil => rfl
  | cons hb _ ih => rw [List.map_cons, List.map_cons, hb.type, ih]

namespace Program

theorem runFrom_congr {inputs inputs' : Inputs} {index : Nat} {slots : Array Value}
    {bs bs' : List Binding} (h : List.Forall₂ (Binding.Alike inputs inputs') bs bs') :
    runFrom inputs index slots bs = runFrom inputs' index slots bs' := by
  induction h generalizing index slots with
  | nil => rfl
  | @cons b b' bs bs' hb _ ih =>
    rw [runFrom, runFrom, hb.run]
    cases b'.step.run inputs' slots (slots.getD index default) with
    | error err => rfl
    | ok v => exact ih

/-- Programs with the same constants and the same root whose bindings are alike run alike. -/
theorem run_congr {p p' : Program} {arguments arguments' : List Value} {scope scope' : Scope}
    (length : arguments.length = p.exported.length)
    (length' : arguments'.length = p'.exported.length)
    (constants : p.constants = p'.constants) (root : p.root = p'.root)
    (alike : List.Forall₂ (Binding.Alike { arguments, scope, constants := p.constants }
      { arguments := arguments', scope := scope', constants := p'.constants })
      p.bindings.toList p'.bindings.toList) (frame : Frame) :
    p.run arguments scope frame = p'.run arguments' scope' frame := by
  have hsize : p.bindings.size = p'.bindings.size := by simpa using alike.length_eq
  have hframe : p.newFrame = p'.newFrame := by
    have htypes := congrArg (List.map (·.initial)) (Binding.Alike.map_type alike)
    unfold newFrame
    congr 1
    apply Array.ext'
    simpa [Function.comp_def] using htypes
  rw [run, run, if_neg (not_not.2 length), if_neg (not_not.2 length')]
  dsimp only
  rw [hsize, hframe, runFrom_congr alike]
  have hroot : ∀ slots, p.root.fetch { arguments, scope, constants := p.constants } slots =
      p'.root.fetch { arguments := arguments', scope := scope', constants := p'.constants }
        slots := by
    intro slots
    rw [root]
    exact Operand.fetch_congr constants slots _
  simp only [hroot]

end Program

end Formula
