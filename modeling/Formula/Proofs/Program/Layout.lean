import Formula.Proofs.Program.Reads
import Mathlib.Data.List.Dedup
import Mathlib.Data.List.Induction
/-!
What an expression asks of a program, told without the pass that compiles it: which evaluators it
applies, what stands at their argument positions, and which of these positions take what has to be
converted first.
-/

namespace Formula

/-! ### The parts of expressions -/

/-- What has a slot of its own: a variable that is read, or an operator that is applied, by its
place among the operators. -/
inductive Source where
  | read (name : String)
  | applied (index : Nat)
  deriving DecidableEq, Repr

/-- What an expression is for the operator that takes it: a literal, or what a slot holds. -/
inductive Subject where
  | literal
  | slot (source : Source) (type : ConcreteType)

/-- An argument position: what stands there, and the type that is taken there. -/
structure Position where
  subject : Subject
  target : ConcreteType

/-- An evaluator and what it is applied to. -/
structure Application where
  evaluator : Evaluator
  subjects : List Subject

/-- The argument positions of an application. -/
def Application.positions (a : Application) : List Position :=
  List.zipWith Position.mk a.subjects a.evaluator.arguments

namespace Expr

/-- A node is an operator. -/
def isOperator : Expr → Bool
  | op .. => true
  | _ => false

/-- The operators of an expression, children first. -/
def operators (e : Expr) : List Expr :=
  (nodes e).filter isOperator

theorem operators_group (slot : TypeSlot) (cs : List Expr) :
    operators (group slot cs) = cs.flatMap operators := by
  rw [operators, nodes_group, List.filter_append, List.filter_flatMap]
  exact List.append_nil _

theorem operators_op (slot : TypeSlot) (name : String) (cs : List Expr)
    (r : Option Resolution) :
    operators (op slot name cs r) = cs.flatMap operators ++ [op slot name cs r] := by
  rw [operators, nodes_op, List.filter_append, List.filter_flatMap]
  rfl

mutual

/-- The applications that an expression is made of, behind as many others, and what it is itself. -/
def layout (mode : Mode) (before : Nat) : Expr → List Application × Subject
  | group _ cs =>
    match cs with
    | [c] => layout mode before c
    | _ => ([], .literal)
  | var slot name =>
    match slot.type?.bind (·.representation? mode) with
    | some c => ([], .slot (.read name) c)
    | none => ([], .literal)
  | const .. => ([], .literal)
  | op _ _ cs r =>
    match r.bind (·.overload.evaluator? mode) with
    | some e =>
      let (as, xs) := layoutAll mode before cs
      (as ++ [{ evaluator := e, subjects := xs }], .slot (.applied (before + as.length)) e.result)
    | none => ([], .literal)

/-- The applications that expressions are made of, and what these are themselves. -/
def layoutAll (mode : Mode) (before : Nat) : List Expr → List Application × List Subject
  | [] => ([], [])
  | c :: cs =>
    let (as, x) := layout mode before c
    let (bs, xs) := layoutAll mode (before + as.length) cs
    (as ++ bs, x :: xs)

end

/-- The applications that a whole expression is made of, in turn. -/
def applications (mode : Mode) (e : Expr) : List Application :=
  (layout mode 0 e).1

/-- The argument positions of an expression. -/
def positions (mode : Mode) (e : Expr) : List Position :=
  (e.applications mode).flatMap Application.positions

end Expr

/-! ### The parts of programs -/

namespace Binding

/-- The name of the variable that is read, if one is. -/
def readName? (x : Binding) : Option String :=
  x.step.read?.map (·.name)

/-- What is converted, and the name of the type that it is converted to, if something is. -/
def conversion? (x : Binding) : Option (Operand × String) :=
  match x.step with
  | .convert _ c a => some (a, c.target.name)
  | _ => none

/-- The binding itself, if it applies an operator. -/
def application? (x : Binding) : Option Binding :=
  match x.step with
  | .binary .. | .unary .. | .call .. => some x
  | _ => none

/-- The function that is called, if one is. -/
def function? (x : Binding) : Option Nat :=
  match x.step with
  | .convert f .. | .call f .. => some f
  | _ => none

/-- A binding applies an operator, and so neither reads nor converts. -/
structure IsApplication (x : Binding) : Prop where
  application : x.application? = some x
  reads : x.readName? = none
  converts : x.conversion? = none

end Binding

/-- What a part of the bindings is, each with its slot. -/
def placesOf {α : Type} (f : Binding → Option α) (bs : List Binding) : List (α × Nat) :=
  bs.zipIdx.filterMap fun x => (f x.1).map fun y => (y, x.2)

/-- The slot of what has one. -/
def place (bs : List Binding) : Source → Option Nat
  | .read name => (placesOf Binding.readName? bs).lookup name
  | .applied k => ((placesOf Binding.application? bs)[k]?).map Prod.snd

/-- The conversion that an argument position asks for: what stands there is a slot, and of another
type than is taken. -/
def Position.conversion? (bs : List Binding) : Position → Option (Operand × String)
  | { subject := .literal, .. } => none
  | { subject := .slot source type, target } =>
    if type.name = target.name then none
    else (place bs source).map fun i => (.slot i, target.name)

section Places

variable {α : Type} {f : Binding → Option α} {bs bs' : List Binding} {x : Binding}

theorem placesOf_append_singleton :
    placesOf f (bs ++ [x]) = placesOf f bs ++ ((f x).map fun y => (y, bs.length)).toList := by
  rw [placesOf, List.zipIdx_append, List.filterMap_append, Nat.zero_add]
  rfl

theorem placesOf_push_of_none {xs : Array Binding} (h : f x = none) :
    placesOf f (xs.push x).toList = placesOf f xs.toList := by
  rw [Array.toList_push, placesOf_append_singleton, h]
  exact List.append_nil _

theorem placesOf_push_of_some {xs : Array Binding} {y : α} (h : f x = some y) :
    placesOf f (xs.push x).toList = placesOf f xs.toList ++ [(y, xs.size)] := by
  rw [Array.toList_push, placesOf_append_singleton, h, Array.length_toList]
  rfl

theorem filterMap_push_of_none {xs : Array Binding} (h : f x = none) :
    (xs.push x).toList.filterMap f = xs.toList.filterMap f := by
  simp [h]

theorem filterMap_push_of_some {xs : Array Binding} {y : α} (h : f x = some y) :
    (xs.push x).toList.filterMap f = xs.toList.filterMap f ++ [y] := by
  simp [h]

theorem map_fst_placesOf : (placesOf f bs).map Prod.fst = bs.filterMap f := by
  induction bs using List.reverseRecOn with
  | nil => rfl
  | append_singleton bs x ih =>
    rw [placesOf_append_singleton, List.map_append, ih, List.filterMap_append]
    cases h : f x <;> simp [h]

theorem placesOf_grown (h : bs <+: bs') : placesOf f bs <+: placesOf f bs' := by
  obtain ⟨more, rfl⟩ := h
  rw [placesOf, placesOf, List.zipIdx_append, List.filterMap_append]
  exact List.prefix_append ..

theorem mem_placesOf {y : α} {i : Nat} :
    (y, i) ∈ placesOf f bs ↔ ∃ x, bs[i]? = some x ∧ f x = some y := by
  unfold placesOf
  rw [List.mem_filterMap]
  constructor
  · rintro ⟨⟨x, j⟩, hx, hy⟩
    obtain ⟨y', hy', heq⟩ := Option.map_eq_some_iff.1 hy
    cases heq
    exact ⟨x, List.mem_zipIdx_iff_getElem?.1 hx, hy'⟩
  · rintro ⟨x, hx, hy⟩
    exact ⟨(x, i), List.mem_zipIdx_iff_getElem?.2 hx, by simp [hy]⟩

/-- What has a slot keeps it while the program grows. -/
theorem place_grown {source : Source} {i : Nat} (h : bs <+: bs')
    (hi : place bs source = some i) : place bs' source = some i := by
  cases source with
  | read name =>
    obtain ⟨more, hmore⟩ := @placesOf_grown _ Binding.readName? _ _ h
    have hlookup : (placesOf Binding.readName? bs).lookup name = some i := hi
    rw [place, ← hmore, List.lookup_append, hlookup, Option.some_or]
  | applied k =>
    obtain ⟨y, hy, hi⟩ := Option.map_eq_some_iff.1 hi
    have hplaces := @placesOf_grown _ Binding.application? _ _ h
    rw [place, Compile.getElem?_of_prefix hplaces hy, Option.map_some, hi]

theorem Position.conversion?_grown {p : Position} {k : Operand × String} (h : bs <+: bs')
    (hk : p.conversion? bs = some k) : p.conversion? bs' = some k := by
  obtain ⟨subject, target⟩ := p
  cases subject with
  | literal => cases hk
  | slot source type =>
    by_cases hname : type.name = target.name
    · simp [conversion?, hname] at hk
    · rw [conversion?, if_neg hname] at hk ⊢
      obtain ⟨i, hi, rfl⟩ := Option.map_eq_some_iff.1 hk
      rw [place_grown h hi]
      rfl

/-- A binding reads a variable, applies an operator or converts. -/
theorem length_eq_places (bs : List Binding) :
    bs.length = (bs.filterMap Binding.readName?).length +
      (bs.filterMap Binding.application?).length + (bs.filterMap Binding.conversion?).length := by
  induction bs with
  | nil => rfl
  | cons x bs ih =>
    obtain ⟨step, type⟩ := x
    rw [List.length_cons, ih]
    simp only [List.filterMap_cons, Binding.readName?, Binding.application?, Binding.conversion?]
    cases step with
    | read | convert | binary | unary | call =>
      simp only [Step.read?, Option.map_some, Option.map_none, List.length_cons]
      omega

end Places

/-! ### Programs that do what expressions ask for -/

/-- An operand is what an argument position takes: a constant for a literal, the slot of what stands
there if it has the type that is taken, and a slot that it is converted in if it has another. -/
inductive Takes (bs : List Binding) : Position → Operand → Prop
  | literal {target i} : Takes bs { subject := .literal, target } (.constant i)
  | same {source type target i} (named : type.name = target.name)
      (placed : place bs source = some i) :
      Takes bs { subject := .slot source type, target } (.slot i)
  | converted {source type target i j x} (differs : type.name ≠ target.name)
      (placed : place bs source = some i) (found : bs[j]? = some x)
      (converts : x.conversion? = some (.slot i, target.name)) :
      Takes bs { subject := .slot source type, target } (.slot j)

/-- A binding applies the evaluator of an application to what stands at its argument positions. -/
def Binding.Performs (bs : List Binding) (x : Binding) (a : Application) : Prop :=
  ∃ xs, x.step.Applies a.evaluator xs ∧ x.type = a.evaluator.result ∧
    List.Forall₂ (Takes bs) a.positions xs

section Takes

variable {bs bs' : List Binding} {p : Position} {a : Operand}

theorem Takes.grown (h : Takes bs p a) (hbs : bs <+: bs') : Takes bs' p a := by
  cases h with
  | literal => exact .literal
  | same named placed => exact .same named (place_grown hbs placed)
  | converted differs placed found converts =>
    exact .converted differs (place_grown hbs placed) (Compile.getElem?_of_prefix hbs found) converts

theorem Binding.Performs.grown {x : Binding} {o : Application} (h : x.Performs bs o)
    (hbs : bs <+: bs') : x.Performs bs' o := by
  obtain ⟨xs, happlies, htype, htakes⟩ := h
  exact ⟨xs, happlies, htype, htakes.imp fun _ _ ht => ht.grown hbs⟩

/-- The conversion that an argument position asks for is made. -/
theorem Takes.mem_conversions {k : Operand × String} (h : Takes bs p a)
    (hk : p.conversion? bs = some k) : k ∈ bs.filterMap Binding.conversion? := by
  cases h with
  | literal => cases hk
  | same named => simp [Position.conversion?, named] at hk
  | @converted _ _ _ i j x differs placed found converts =>
    rw [Position.conversion?, if_neg differs, placed] at hk
    cases hk
    exact List.mem_filterMap.2 ⟨x, List.mem_of_getElem? found, converts⟩

end Takes

end Formula
