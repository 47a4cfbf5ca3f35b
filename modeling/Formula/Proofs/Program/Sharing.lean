import Formula.Proofs.Program.Faults
import Formula.Proofs.Program.Layout
/-!
What compilation shares, and that it shares all of it. A variable is read once, a slot is converted
to a type once, an identical constant and a function are kept once; and nothing is bound or kept that
the expression does not ask for.
-/

namespace Formula

/-! ### Lists of keys with values -/

section Lookup

variable {α β : Type} [BEq α] [LawfulBEq α] {l : List (α × β)} {k : α} {v : β}

theorem not_mem_keys_of_lookup (h : l.lookup k = none) : k ∉ l.map Prod.fst := by
  rintro hk
  obtain ⟨p, hp, rfl⟩ := List.mem_map.1 hk
  simpa using List.lookup_eq_none_iff.1 h p hp

theorem mem_of_lookup (h : l.lookup k = some v) : (k, v) ∈ l := by
  obtain ⟨before, after, rfl, -⟩ := List.lookup_eq_some_iff.1 h
  exact List.mem_append_right before List.mem_cons_self

/-- Where no key stands twice it does not matter from which end it is looked up. -/
theorem lookup_reverse (h : (l.map Prod.fst).Nodup) (k : α) : l.reverse.lookup k = l.lookup k := by
  induction l with
  | nil => rfl
  | cons p l ih =>
    obtain ⟨k', v⟩ := p
    obtain ⟨hk', hl⟩ := List.nodup_cons.1 h
    rw [List.reverse_cons, List.lookup_append, ih hl]
    cases hlookup : l.lookup k with
    | none => rw [Option.none_or, List.lookup_cons, List.lookup_cons, List.lookup_nil, hlookup]
    | some w =>
      have hne : k ≠ k' := by
        rintro rfl
        exact hk' (List.mem_map.2 ⟨_, mem_of_lookup hlookup, rfl⟩)
      rw [Option.some_or, List.lookup_cons, beq_false_of_ne hne, hlookup]

end Lookup

namespace Compile

/-! ### Caches -/

/-- The caches of a program under construction list what it reads and converts, and nothing is read,
converted or kept twice, nor a function kept that is not called. -/
structure Build.Tidy (b : Build) : Prop where
  reads : placesOf Binding.readName? b.bindings.toList = b.reads.reverse
  conversions : placesOf Binding.conversion? b.bindings.toList =
    b.conversions.reverse.map fun c => ((.slot c.1.1, c.1.2), c.2)
  readOnce : (b.reads.map Prod.fst).Nodup
  convertedOnce : (b.conversions.map Prod.fst).Nodup
  constants : b.constants.toList.Nodup
  functions : (b.functions.toList.map (·.origin)).Nodup
  called : ∀ i < b.functions.size, ∃ x ∈ b.bindings.toList, x.function? = some i

namespace Build.Tidy

variable {b b' : Build}

theorem empty : Build.Tidy {} := by
  constructor <;> simp [placesOf]

/-- The slot of a variable is the one that is cached. -/
theorem place_read (hb : b.Tidy) (name : String) :
    place b.bindings.toList (.read name) = b.reads.lookup name := by
  rw [place, hb.reads, lookup_reverse hb.readOnce]

/-- A cached conversion is made in its slot. -/
theorem converts (hb : b.Tidy) {source i : Nat} {target : String}
    (h : b.conversions.lookup (source, target) = some i) :
    ∃ x, b.bindings.toList[i]? = some x ∧ x.conversion? = some (.slot source, target) := by
  apply mem_placesOf.1
  rw [hb.conversions]
  exact List.mem_map.2 ⟨_, List.mem_reverse.2 (mem_of_lookup h), rfl⟩

theorem readNames_nodup (hb : b.Tidy) :
    (b.bindings.toList.filterMap Binding.readName?).Nodup := by
  rw [← map_fst_placesOf, hb.reads, List.map_reverse, List.nodup_reverse]
  exact hb.readOnce

theorem conversions_eq (hb : b.Tidy) : b.bindings.toList.filterMap Binding.conversion? =
    (b.conversions.map Prod.fst).reverse.map fun k => (.slot k.1, k.2) := by
  rw [← map_fst_placesOf, hb.conversions, List.map_map, ← List.map_reverse, List.map_map]
  rfl

theorem conversions_nodup (hb : b.Tidy) :
    (b.bindings.toList.filterMap Binding.conversion?).Nodup := by
  rw [hb.conversions_eq]
  refine List.Nodup.map ?_ (List.nodup_reverse.2 hb.convertedOnce)
  rintro ⟨i, s⟩ ⟨j, t⟩ heq
  cases heq
  rfl

theorem slot_of_mem (hb : b.Tidy) {k : Operand × String}
    (hk : k ∈ b.bindings.toList.filterMap Binding.conversion?) : ∃ i, k.1 = .slot i := by
  rw [hb.conversions_eq] at hk
  obtain ⟨k', -, rfl⟩ := List.mem_map.1 hk
  exact ⟨k'.1, rfl⟩

end Build.Tidy

variable {b b' : Build}

theorem keepConstant_tidy {v : Value} {a : Operand} (hb : b.Tidy)
    (h : (keepConstant v).run b = .ok (a, b')) : b'.Tidy := by
  rcases keepConstant_cases h with ⟨i, -, -, rfl⟩ | ⟨hnew, -, rfl⟩
  · exact hb
  · refine { hb with constants := ?_ }
    rw [Array.toList_push, List.nodup_append_comm]
    exact List.nodup_cons.2 ⟨hnew, hb.constants⟩

/-- A function is kept once, and no other is added. -/
theorem keepFunction_once {f : Imported} {i : Nat} {functions : Array Imported} (hb : b.Tidy)
    (h : (keepFunction f).run b = .ok (i, { b with functions })) :
    (functions.toList.map (·.origin)).Nodup ∧
      ∀ j < functions.size, j < b.functions.size ∨ j = i := by
  rcases keepFunction_cases h with ⟨-, heq⟩ | ⟨hnew, rfl, heq⟩
  · obtain rfl : functions = b.functions := congrArg Build.functions heq
    exact ⟨hb.functions, fun j hj => .inl hj⟩
  · obtain rfl : functions = b.functions.push f := congrArg Build.functions heq
    constructor
    · rw [Array.toList_push, List.map_append, List.nodup_append_comm]
      exact List.nodup_cons.2 ⟨hnew, hb.functions⟩
    · intro j hj
      rw [Array.size_push] at hj
      omega

/-- Functions stay called when a binding is added, by which the last that was kept is called. -/
theorem called_push {functions : Array Imported} {x : Binding} (hb : b.Tidy)
    (h : ∀ j < functions.size, j < b.functions.size ∨ x.function? = some j) :
    ∀ j < functions.size, ∃ y ∈ (b.bindings.push x).toList, y.function? = some j := by
  intro j hj
  rw [Array.toList_push]
  rcases h j hj with hold | hx
  · obtain ⟨y, hy, hcall⟩ := hb.called j hold
    exact ⟨y, List.mem_append_left _ hy, hcall⟩
  · exact ⟨x, List.mem_append_right _ List.mem_cons_self, hx⟩

theorem variableSlot_tidy {ctx : Context} {name : String} {t : MathType} {target : ConcreteType}
    {i : Nat} (hb : b.Tidy) (h : (variableSlot ctx name t target).run b = .ok (i, b')) :
    b'.Tidy := by
  rcases variableSlot_run h with ⟨-, rfl⟩ | ⟨hlookup, conversion?, -, rfl, rfl⟩
  · exact hb
  · have hread : Binding.readName? { step := readOf ctx name target conversion?, type := target } =
        some name := rfl
    refine ⟨?_, ?_, ?_, hb.convertedOnce, hb.constants, hb.functions, ?_⟩
    · rw [placesOf_push_of_some hread, hb.reads, List.reverse_cons]
    · rw [placesOf_push_of_none rfl, hb.conversions]
    · exact List.nodup_cons.2 ⟨not_mem_keys_of_lookup hlookup, hb.readOnce⟩
    · exact called_push hb fun j hj => .inl hj

theorem conversionSlot_tidy {c : ConcreteCast} {source i : Nat} {target : String} (hb : b.Tidy)
    (named : c.target.name = target) (h : (conversionSlot c source target).run b = .ok (i, b')) :
    b'.Tidy := by
  rcases conversionSlot_cases h with ⟨-, rfl⟩ | ⟨hlookup, rfl, f, functions, hkeep, rfl⟩
  · exact hb
  · obtain ⟨honce, hadded⟩ := keepFunction_once hb hkeep
    have hconverts : Binding.conversion?
        { step := .convert f c (.slot source), type := c.target } = some (.slot source, target) := by
      rw [← named]
      rfl
    refine ⟨?_, ?_, hb.readOnce, ?_, hb.constants, honce, ?_⟩
    · rw [placesOf_push_of_none rfl, hb.reads]
    · rw [placesOf_push_of_some hconverts, hb.conversions, List.reverse_cons, List.map_append]
      rfl
    · exact List.nodup_cons.2 ⟨not_mem_keys_of_lookup hlookup, hb.convertedOnce⟩
    · exact called_push hb fun j hj => (hadded j hj).imp_right fun heq => by rw [heq]; rfl

/-- An application is bound in a new slot by a binding of its own, with no function kept but one that
it calls. -/
theorem applicationSlot_binds {o : Overload} {e : Evaluator} {xs : List Operand} {i : Nat}
    (hb : b.Tidy) (h : (applicationSlot o e xs).run b = .ok (i, b')) :
    i = b.bindings.size ∧ ∃ x functions, b' = { b with bindings := b.bindings.push x, functions } ∧
      x.step.Applies e xs ∧ x.type = e.result ∧ x.IsApplication ∧
      (functions.toList.map (·.origin)).Nodup ∧
      ∀ j < functions.size, j < b.functions.size ∨ x.function? = some j := by
  obtain ⟨hi, step, functions, happlies, rfl, hkept⟩ := applicationSlot_cases h
  refine ⟨hi, _, functions, rfl, happlies, rfl, ?_⟩
  rcases hkept with ⟨rfl, ⟨op, x, y, rfl⟩ | ⟨op, x, rfl⟩⟩ | ⟨f, rfl, hkeep⟩
  · exact ⟨⟨rfl, rfl, rfl⟩, hb.functions, fun j hj => .inl hj⟩
  · exact ⟨⟨rfl, rfl, rfl⟩, hb.functions, fun j hj => .inl hj⟩
  · obtain ⟨honce, hadded⟩ := keepFunction_once hb hkeep
    exact ⟨⟨rfl, rfl, rfl⟩, honce,
      fun j hj => (hadded j hj).imp_right fun heq => by rw [heq]; rfl⟩

/-! ### What has been laid out -/

/-- A program under construction has performed the applications `done`, and holds ready what stands
at the argument positions `pending` of those that are still to come. Its conversions and constants
are all for one or the other. -/
structure Build.Lays (b : Build) (done : List Application)
    (pending : List (Position × Operand)) : Prop where
  tidy : b.Tidy
  performed : List.Forall₂ (Binding.Performs b.bindings.toList)
    (b.bindings.toList.filterMap Binding.application?) done
  taken : ∀ p ∈ pending, Takes b.bindings.toList p.1 p.2
  asked : ∀ k ∈ b.bindings.toList.filterMap Binding.conversion?,
    ∃ p ∈ done.flatMap Application.positions ++ pending.map Prod.fst,
      p.conversion? b.bindings.toList = some k
  used : ∀ i < b.constants.size, (∃ x ∈ b.bindings.toList, .constant i ∈ x.step.operands) ∨
    .constant i ∈ pending.map Prod.snd

variable {done : List Application} {pending : List (Position × Operand)}

theorem lays_empty : Build.Lays {} [] [] where
  tidy := .empty
  performed := .nil
  taken := by simp
  asked := by simp
  used := by simp

/-- What is made ready for further positions leaves the applications as they are. -/
theorem Build.Lays.add {more : List (Position × Operand)} (h : b.Lays done pending)
    (tidy : b'.Tidy) (grown : b.bindings.toList <+: b'.bindings.toList)
    (applications : b'.bindings.toList.filterMap Binding.application? =
      b.bindings.toList.filterMap Binding.application?)
    (taken : ∀ p ∈ more, Takes b'.bindings.toList p.1 p.2)
    (asked : ∀ k ∈ b'.bindings.toList.filterMap Binding.conversion?,
      k ∈ b.bindings.toList.filterMap Binding.conversion? ∨
        ∃ p ∈ more, p.1.conversion? b'.bindings.toList = some k)
    (used : ∀ i < b'.constants.size, i < b.constants.size ∨ .constant i ∈ more.map Prod.snd) :
    b'.Lays done (pending ++ more) where
  tidy := tidy
  performed := by
    rw [applications]
    exact h.performed.imp fun _ _ hx => hx.grown grown
  taken := by
    intro p hp
    rcases List.mem_append.1 hp with hp | hp
    · exact (h.taken p hp).grown grown
    · exact taken p hp
  asked := by
    intro k hk
    rw [List.map_append, ← List.append_assoc]
    rcases asked k hk with hold | ⟨p, hp, hconversion⟩
    · obtain ⟨p, hp, hconversion⟩ := h.asked k hold
      exact ⟨p, List.mem_append_left _ hp, Position.conversion?_grown grown hconversion⟩
    · exact ⟨p.1, List.mem_append_right _ (List.mem_map_of_mem hp), hconversion⟩
  used := by
    intro i hi
    rw [List.map_append, List.mem_append]
    rcases used i hi with hold | hmore
    · rcases h.used i hold with ⟨x, hx, huse⟩ | hpending
      · exact .inl ⟨x, grown.subset hx, huse⟩
      · exact .inr (.inl hpending)
    · exact .inr (.inr hmore)

/-- What an expression was compiled to is what it is for the operator above it. -/
inductive Delivers (bs : List Binding) : Subject → Bound × ConcreteType → Prop
  | literal {v type} : Delivers bs .literal (.literal v, type)
  | slot {source type i} (placed : place bs source = some i) :
      Delivers bs (.slot source type) (.slot i, type)

theorem variableSlot_lays {ctx : Context} {name : String} {t : MathType} {target : ConcreteType}
    {i : Nat} (hl : b.Lays done pending)
    (h : (variableSlot ctx name t target).run b = .ok (i, b')) :
    b'.Lays done pending ∧ place b'.bindings.toList (.read name) = some i := by
  have htidy := variableSlot_tidy hl.tidy h
  rw [htidy.place_read]
  rcases variableSlot_run h with ⟨hlookup, rfl⟩ | ⟨hlookup, conversion?, -, rfl, rfl⟩
  · exact ⟨hl, hlookup⟩
  · rw [← List.append_nil pending]
    refine ⟨hl.add htidy ?_ (filterMap_push_of_none rfl) ?_ ?_ (fun j hj => .inl hj),
      List.lookup_cons_self⟩
    · simp
    · simp
    · intro k hk
      rw [filterMap_push_of_none rfl] at hk
      exact .inl hk

/-- A constant is kept for a position with a literal. -/
theorem keepConstant_lays {v : Value} {a : Operand} {target : ConcreteType}
    (hl : b.Lays done pending) (h : (keepConstant v).run b = .ok (a, b')) :
    b'.Lays done (pending ++ [({ subject := .literal, target }, a)]) := by
  have htidy := keepConstant_tidy hl.tidy h
  rcases keepConstant_cases h with ⟨i, -, rfl, rfl⟩ | ⟨-, rfl, rfl⟩
  · exact hl.add htidy List.prefix_rfl rfl (by simpa using .literal) (fun k hk => .inl hk)
      (fun j hj => .inl hj)
  · refine hl.add htidy List.prefix_rfl rfl (by simpa using .literal) (fun k hk => .inl hk) ?_
    intro j hj
    rw [Array.size_push] at hj
    simp
    omega

/-- A position of another type is made ready in the slot of the conversion. -/
theorem conversionSlot_lays {c : ConcreteCast} {source : Source} {type target : ConcreteType}
    {i j : Nat} (hl : b.Lays done pending) (placed : place b.bindings.toList source = some i)
    (differs : type.name ≠ target.name) (named : c.target.name = target.name)
    (h : (conversionSlot c i target.name).run b = .ok (j, b')) :
    b'.Lays done (pending ++ [({ subject := .slot source type, target }, .slot j)]) := by
  have htidy := conversionSlot_tidy hl.tidy named h
  rcases conversionSlot_cases h with ⟨hlookup, rfl⟩ | ⟨hlookup, rfl, f, functions, -, rfl⟩
  · obtain ⟨x, hx, hconverts⟩ := hl.tidy.converts hlookup
    refine hl.add htidy List.prefix_rfl rfl ?_ (fun k hk => .inl hk) (fun j hj => .inl hj)
    simpa using .converted differs placed hx hconverts
  · have hconverts : Binding.conversion? { step := .convert f c (.slot i), type := c.target } =
        some (.slot i, target.name) := by
      rw [← named]
      rfl
    have hgrown : b.bindings.toList <+:
        (b.bindings.push { step := .convert f c (.slot i), type := c.target }).toList := by simp
    have hplaced := place_grown hgrown placed
    refine hl.add htidy hgrown (filterMap_push_of_none rfl) ?_ ?_ (fun j hj => .inl hj)
    · simp only [List.mem_singleton, forall_eq]
      exact .converted differs hplaced (by simp) hconverts
    · intro k hk
      rw [filterMap_push_of_some hconverts, List.mem_append, List.mem_singleton] at hk
      refine hk.imp_right fun heq => ⟨_, List.mem_singleton_self _, ?_⟩
      rw [Position.conversion?, if_neg differs, hplaced, heq]
      rfl

theorem keep_lays {x : Bound} {source target : ConcreteType} {subject : Subject} {a : Operand}
    (hl : b.Lays done pending) (hx : Delivers b.bindings.toList subject (x, source))
    (named : source.name = target.name) (h : (keep x).run b = .ok (a, b')) :
    b'.Lays done (pending ++ [(⟨subject, target⟩, a)]) := by
  cases hx with
  | literal => exact keepConstant_lays hl h
  | slot placed =>
    obtain ⟨rfl, rfl⟩ := run_pure_eq_ok.1 h
    refine hl.add hl.tidy List.prefix_rfl rfl ?_ (fun k hk => .inl hk) (fun j hj => .inl hj)
    simpa using .same named placed

theorem applicationSlot_tidy {o : Overload} {e : Evaluator} {xs : List Operand} {i : Nat}
    (hb : b.Tidy) (h : (applicationSlot o e xs).run b = .ok (i, b')) : b'.Tidy := by
  obtain ⟨-, x, functions, rfl, -, -, hx, honce, hadded⟩ := applicationSlot_binds hb h
  refine ⟨?_, ?_, hb.readOnce, hb.convertedOnce, hb.constants, honce, called_push hb hadded⟩
  · rw [placesOf_push_of_none hx.reads, hb.reads]
  · rw [placesOf_push_of_none hx.converts, hb.conversions]

/-- The next application stands behind those that are done. -/
theorem Build.Lays.place_applied (hl : b.Lays done pending) {x : Binding} (hx : x.IsApplication) :
    place (b.bindings.push x).toList (.applied done.length) = some b.bindings.size := by
  have hdone : (placesOf Binding.application? b.bindings.toList).length = done.length := by
    rw [← hl.performed.length_eq, ← map_fst_placesOf, List.length_map]
  rw [place, placesOf_push_of_some hx.application, ← hdone]
  simp

/-- A constant that was made ready for an application is taken by it. -/
theorem Build.Lays.used_push {positions : List Position} {xs : List Operand} {x : Binding}
    (hl : b.Lays done (pending ++ positions.zip xs)) (length : positions.length = xs.length)
    (operands : x.step.operands = xs) {i : Nat} (hi : i < b.constants.size) :
    (∃ y ∈ (b.bindings.push x).toList, .constant i ∈ y.step.operands) ∨
      .constant i ∈ pending.map Prod.snd := by
  rw [Array.toList_push]
  rcases hl.used i hi with ⟨y, hy, huse⟩ | hmem
  · exact .inl ⟨y, List.mem_append_left _ hy, huse⟩
  · rw [List.map_append, List.map_snd_zip (Nat.le_of_eq length.symm), List.mem_append] at hmem
    rcases hmem with hmem | hmem
    · exact .inr hmem
    · exact .inl ⟨x, List.mem_append_right _ List.mem_cons_self, operands ▸ hmem⟩

/-- An application takes what was made ready for its positions. -/
theorem applicationSlot_lays {o : Overload} {e : Evaluator} {subjects : List Subject}
    {xs : List Operand} {i : Nat}
    (length : (Application.positions ⟨e, subjects⟩).length = xs.length)
    (hl : b.Lays done (pending ++ (Application.positions ⟨e, subjects⟩).zip xs))
    (h : (applicationSlot o e xs).run b = .ok (i, b')) :
    b'.Lays (done ++ [⟨e, subjects⟩]) pending ∧
      place b'.bindings.toList (.applied done.length) = some i := by
  have htidy := applicationSlot_tidy hl.tidy h
  obtain ⟨rfl, x, functions, rfl, happlies, htype, hx, -, -⟩ := applicationSlot_binds hl.tidy h
  have hgrown : b.bindings.toList <+: (b.bindings.push x).toList := by simp
  have hperforms : x.Performs (b.bindings.push x).toList ⟨e, subjects⟩ := by
    refine ⟨xs, happlies, htype, List.forall₂_iff_zip.2 ⟨length, fun {p a} hpa => ?_⟩⟩
    exact (hl.taken (p, a) (List.mem_append_right _ hpa)).grown hgrown
  refine ⟨⟨htidy, ?_, ?_, ?_, ?_⟩, hl.place_applied hx⟩
  · have hold := hl.performed.imp fun _ _ hy => hy.grown hgrown
    rw [filterMap_push_of_some hx.application]
    exact List.rel_append hold (.cons hperforms .nil)
  · intro p hp
    exact (hl.taken p (List.mem_append_left _ hp)).grown hgrown
  · intro k hk
    rw [filterMap_push_of_none hx.converts] at hk
    obtain ⟨p, hp, hconversion⟩ := hl.asked k hk
    refine ⟨p, ?_, Position.conversion?_grown hgrown hconversion⟩
    -- its positions are no longer to come, but those of an application that is done
    rw [List.map_append, List.map_fst_zip (Nat.le_of_eq length)] at hp
    rw [List.flatMap_append, List.flatMap_singleton]
    simp only [List.mem_append] at hp ⊢
    tauto
  · exact fun j hj => hl.used_push length happlies.operands_eq hj

/-! ### Expressions -/

/-- Compiling an expression performs its applications, as many as it has operators, behind those that
are done, and leaves alone what was made ready before. -/
def LaysOut (ctx : Context) (e : Expr) : Prop :=
  ∀ done pending b b' r, Build.Lays b done pending → (node ctx e).run b = .ok (r, b') →
    b'.Lays (done ++ (e.layout ctx.options.mode done.length).1) pending ∧
    Delivers b'.bindings.toList (e.layout ctx.options.mode done.length).2 r ∧
    (e.layout ctx.options.mode done.length).1.length = e.operators.length

namespace Typing

variable {T : Typing}

theorem operand_lays {x : Bound} {source target : ConcreteType} {subject : Subject} {a : Operand}
    (hT : T.Closed) (hl : b.Lays done pending)
    (hx : Delivers b.bindings.toList subject (x, source))
    (h : (operand T.context x source target).run b = .ok (a, b')) :
    b'.Lays done (pending ++ [(⟨subject, target⟩, a)]) := by
  rcases operand_run h with ⟨hcast, hkeep⟩ | ⟨c, hcast, ⟨v, rfl, hkeep⟩ | ⟨i, j, rfl, hslot, rfl⟩⟩
  · exact keep_lays hl hx (CastRegistry.concreteCast?_eq_identity hcast) hkeep
  · cases hx
    exact keepConstant_lays hl hkeep
  · obtain ⟨-, named⟩ :=
      hT.coherent.entered _ _ c (CastRegistry.concreteCast?_eq_convert hcast)
    have differs : source.name ≠ target.name := by
      intro heq
      simp [CastRegistry.concreteCast?, heq] at hcast
    cases hx with
    | slot placed => exact conversionSlot_lays hl placed differs named hslot

theorem length_layoutAll (mode : Mode) (before : Nat) (cs : List Expr) :
    (Expr.layoutAll mode before cs).2.length = cs.length := by
  induction cs generalizing before with
  | nil => rfl
  | cons c cs ih => rw [Expr.layoutAll, List.length_cons, List.length_cons, ih]

/-- Compiling expressions makes them ready for the positions that they are to stand at. -/
theorem nodes_lays {cs : List Expr} {targets : List ConcreteType} {xs : List Operand}
    (hT : T.Closed) (ih : ∀ c ∈ cs, LaysOut T.context c) (length : cs.length = targets.length)
    (hl : b.Lays done pending) (h : (nodes T.context cs targets).run b = .ok (xs, b')) :
    xs.length = cs.length ∧
    b'.Lays (done ++ (Expr.layoutAll T.context.options.mode done.length cs).1) (pending ++
      (List.zipWith Position.mk
        (Expr.layoutAll T.context.options.mode done.length cs).2 targets).zip xs) ∧
    (Expr.layoutAll T.context.options.mode done.length cs).1.length =
      (cs.flatMap Expr.operators).length := by
  induction cs generalizing targets xs b done pending with
  | nil =>
    obtain rfl := List.eq_nil_of_length_eq_zero length.symm
    obtain ⟨rfl, rfl⟩ := nodes_nil_run h
    exact ⟨rfl, by simpa [Expr.layoutAll] using hl, rfl⟩
  | cons c cs ih' =>
    obtain ⟨target, targets, rfl⟩ := List.exists_cons_of_length_eq_add_one length.symm
    obtain ⟨x, source, b₁, a, b₂, as, hnode, hoperand, hnodes, rfl⟩ := nodes_cons_run h
    rw [List.forall_mem_cons] at ih
    obtain ⟨hl₁, hx, hlength⟩ := ih.1 _ _ _ _ _ hl hnode
    have hl₂ := operand_lays hT hl₁ hx hoperand
    obtain ⟨hxs, hl₃, hlength'⟩ := ih' ih.2 (Nat.succ.inj length) hl₂ hnodes
    -- the others are counted behind those of the first
    rw [List.length_append] at hl₃ hlength'
    refine ⟨congrArg (· + 1) hxs, ?_, ?_⟩
    · simpa [Expr.layoutAll] using hl₃
    · simp only [Expr.layoutAll, List.flatMap_cons, List.length_append]
      rw [hlength', hlength]

theorem node_laysOut {e : Expr} {t : MathType} (hT : T.Closed)
    (he : Expr.HasType T.env T.vars e t) : LaysOut T.context e := by
  induction he with
  | @group c t child ih =>
    intro done pending b b' r hl h
    rw [Expr.layout, Expr.operators_group, List.flatMap_singleton]
    exact ih done pending b b' r hl (node_group_run h)
  | @var name t known =>
    intro done pending b b' r hl h
    obtain ⟨target, i, represented, hslot, rfl⟩ := node_var_run h
    obtain ⟨hl', hplace⟩ := variableSlot_lays hl hslot
    simp only [Expr.layout, TypeSlot.type?, Option.bind_some, represented]
    rw [List.append_nil]
    exact ⟨hl', .slot hplace, rfl⟩
  | const known belongs =>
    intro done pending b b' r hl h
    obtain ⟨target, w, -, -, rfl, rfl⟩ := node_const_run h
    rw [Expr.layout, List.append_nil]
    exact ⟨hl, .literal, rfl⟩
  | @op name cs ts q length operands choice ih =>
    intro done pending b b' r hl h
    obtain ⟨e, xs, d, i, hevaluator, hnodes, hslot, rfl⟩ := node_op_run h
    have hchildren : ∀ c ∈ cs, LaysOut T.context c := by
      intro c hc
      obtain ⟨u, hzip⟩ := Expr.exists_mem_zip length hc
      exact ih c u hzip
    have harity := length_arguments hT length choice hevaluator
    obtain ⟨hxs, hl', hoperators⟩ := nodes_lays hT hchildren harity hl hnodes
    have hpositions : (Application.positions
        ⟨e, (Expr.layoutAll T.context.options.mode done.length cs).2⟩).length = xs.length := by
      rw [Application.positions, List.length_zipWith, length_layoutAll, hxs]
      exact Nat.min_eq_left (Nat.le_of_eq harity)
    obtain ⟨hl'', hplace⟩ := applicationSlot_lays hpositions hl' hslot
    rw [List.append_assoc] at hl''
    rw [List.length_append] at hplace
    simp only [Expr.layout, Option.bind_some, hevaluator]
    refine ⟨hl'', .slot hplace, ?_⟩
    rw [Expr.operators_op, List.length_append, List.length_append, hoperators]
    rfl

end Typing

end Compile

/-! ### Programs -/

/-- A program shares whatever an expression has in common, and holds nothing else: its bindings are
the readings of the variables, the applications of the operators and, for each slot and type, the
conversion that argument positions ask for. -/
structure Program.SharesExactly (p : Program) (mode : Mode) (e : Expr) : Prop where
  size : p.bindings.size = (e.occurrences.map Prod.fst).dedup.length + e.operators.length +
    ((e.positions mode).filterMap (Position.conversion? p.bindings.toList)).dedup.length
  performed : List.Forall₂ (Binding.Performs p.bindings.toList)
    (p.bindings.toList.filterMap Binding.application?) (e.applications mode)
  reads : (p.bindings.toList.filterMap Binding.readName?).Nodup
  conversions : (p.bindings.toList.filterMap Binding.conversion?).Nodup
  asked : ∀ k, k ∈ p.bindings.toList.filterMap Binding.conversion? ↔
    k ∈ (e.positions mode).filterMap (Position.conversion? p.bindings.toList)
  slots : ∀ k ∈ p.bindings.toList.filterMap Binding.conversion?, ∃ i, k.1 = .slot i
  constants : p.constants.toList.Nodup
  functions : (p.functions.toList.map (·.origin)).Nodup
  constantsUsed : ∀ i < p.constants.size,
    (∃ x ∈ p.bindings.toList, .constant i ∈ x.step.operands) ∨ p.root = .constant i
  functionsUsed : ∀ i < p.functions.size, ∃ x ∈ p.bindings.toList, x.function? = some i

theorem length_eq_dedup {α : Type} [DecidableEq α] {l l' : List α} (nodup : l.Nodup)
    (h : ∀ x, x ∈ l ↔ x ∈ l') : l.length = l'.dedup.length := by
  apply List.Perm.length_eq
  rw [List.perm_ext_iff_of_nodup nodup l'.nodup_dedup]
  simpa using h

namespace Compile

/-- The conversions made are those that the positions of the applications ask for, if what else was
made ready asks for none. -/
theorem Build.Lays.mem_conversions {b : Build} {done : List Application}
    {pending : List (Position × Operand)} (hl : b.Lays done pending)
    (none_pending : ∀ p ∈ pending, p.1.conversion? b.bindings.toList = none)
    (k : Operand × String) : k ∈ b.bindings.toList.filterMap Binding.conversion? ↔
      k ∈ (done.flatMap Application.positions).filterMap
        (Position.conversion? b.bindings.toList) := by
  constructor
  · intro hk
    obtain ⟨p, hp, hconversion⟩ := hl.asked k hk
    rcases List.mem_append.1 hp with hp | hp
    · exact List.mem_filterMap.2 ⟨p, hp, hconversion⟩
    · obtain ⟨q, hq, rfl⟩ := List.mem_map.1 hp
      rw [none_pending q hq] at hconversion
      cases hconversion
  · intro hk
    obtain ⟨p, hp, hconversion⟩ := List.mem_filterMap.1 hk
    obtain ⟨a, ha, hpa⟩ := List.mem_flatMap.1 hp
    obtain ⟨x, -, xs, -, -, htakes⟩ := exists_mem_of_forall₂ hl.performed.flip ha
    obtain ⟨operand, -, htake⟩ := exists_mem_of_forall₂ htakes hpa
    exact htake.mem_conversions hconversion

namespace Typing

variable {T : Typing} {e : Expr} {t : MathType} {p : Program}

/-- As many variables are read as have distinct names. -/
theorem length_reads (hT : T.Closed) (he : Expr.HasType T.env T.vars e t)
    (nodup : (p.bindings.toList.filterMap Binding.readName?).Nodup)
    (h : program T.context e = .ok p) :
    (p.bindings.toList.filterMap Binding.readName?).length =
      (e.occurrences.map Prod.fst).dedup.length := by
  have hnames : p.bindings.toList.filterMap Binding.readName? = e.usedVariables.map Prod.fst := by
    rw [← map_name_of_reads (program_reads hT he h), readsOf, List.map_filterMap]
    rfl
  apply length_eq_dedup nodup
  intro name
  rw [hnames, Expr.usedVariables_eq, Expr.mem_names_foldl]
  simp

theorem program_sharesExactly (hT : T.Closed) (he : Expr.HasType T.env T.vars e t)
    (h : program T.context e = .ok p) : p.SharesExactly T.options.mode e := by
  obtain ⟨x, b, root, b', hnode, hkeep, hp⟩ := program_cases h
  have hbindings : p.bindings = b'.bindings := congrArg (·.bindings) hp
  have hconstants : p.constants = b'.constants := congrArg (·.constants) hp
  have hfunctions : p.functions = b'.functions := congrArg (·.functions) hp
  have hroot : p.root = root := congrArg (·.root) hp
  obtain ⟨hl, hx, hoperators⟩ := node_laysOut hT he [] [] _ _ _ lays_empty hnode
  -- the root is made ready last, as what stands at a position of its own type
  have hl' : b'.Lays (e.applications T.options.mode)
      [(⟨(e.layout T.options.mode 0).2, p.returnType⟩, root)] := keep_lays hl hx rfl hkeep
  have hnone : Position.conversion? b'.bindings.toList
      ⟨(e.layout T.options.mode 0).2, p.returnType⟩ = none := by
    generalize hsubject : (e.layout T.options.mode 0).2 = subject
    have hx' : Delivers b.bindings.toList subject (x, p.returnType) := hsubject ▸ hx
    cases hx' <;> simp [Position.conversion?]
  have hasked := hl'.mem_conversions (by simpa using hnone)
  have hreads := hl'.tidy.readNames_nodup
  have hconversions := hl'.tidy.conversions_nodup
  have happlications : (e.applications T.options.mode).length = e.operators.length := hoperators
  have hlength := length_reads hT he (hbindings ▸ hreads) h
  rw [hbindings] at hlength
  constructor
  · rw [hbindings, ← Array.length_toList, length_eq_places, hlength, hl'.performed.length_eq,
      happlications, length_eq_dedup hconversions hasked]
    rfl
  · rw [hbindings]
    exact hl'.performed
  · rw [hbindings]
    exact hreads
  · rw [hbindings]
    exact hconversions
  · rw [hbindings]
    exact hasked
  · rw [hbindings]
    exact fun k => hl'.tidy.slot_of_mem
  · rw [hconstants]
    exact hl'.tidy.constants
  · rw [hfunctions]
    exact hl'.tidy.functions
  · rw [hconstants, hbindings, hroot]
    intro i hi
    simpa [eq_comm] using hl'.used i hi
  · rw [hfunctions, hbindings]
    exact hl'.tidy.called

end Typing

end Compile

open Compile in
/-- Sharing is exact. A program compiled from an expression that resolves without errors has one
binding for each distinct name of a variable, one for each operator, and one for each distinct slot
and type that it has to be converted to at some argument position. No two bindings read one variable or
make one conversion, and none converts a constant. No two of its constants are identical and no two
of its functions the same, and each of them is used. -/
theorem Environment.compile_sharesExactly {env : Environment} (reachable : env.Reachable)
    (vars : VariableTypes) {e : Expr} (resolved : (env.resolve vars e).2.hasErrors = false)
    {options : CompileOptions} {unit : CompiledUnit}
    (compiled : env.compile options (env.resolve vars e).1 = .ok unit) :
    unit.program.SharesExactly options.mode (env.resolve vars e).1 := by
  obtain ⟨t, ht⟩ := Expr.hasType_resolve resolved
  have hT := @closed_offering env vars options reachable.coherent
  exact Typing.program_sharesExactly hT ht (compile_eq_ok compiled)

namespace Sums

/-- In `x + x + 2` the variable is read once and lifted once, for both of its places: with the two
sums there are four bindings. -/
theorem sharesExactly_twicePlusTwo :
    ∃ unit, env.compile {} (env.resolve .empty twicePlusTwo).1 = .ok unit ∧
      unit.program.SharesExactly Mode.normal (env.resolve .empty twicePlusTwo).1 ∧
      unit.program.bindings.size = 4 ∧
      ((env.resolve .empty twicePlusTwo).1.occurrences.map Prod.fst).dedup = ["x"] ∧
      (env.resolve .empty twicePlusTwo).1.operators.length = 2 := by
  have hsize : (env.compile {} (env.resolve .empty twicePlusTwo).1).toOption.map
      (·.program.bindings.size) = some 4 := by decide +kernel
  obtain ⟨unit, hunit, hfour⟩ := Option.map_eq_some_iff.1 hsize
  have hcompiled : env.compile {} (env.resolve .empty twicePlusTwo).1 = .ok unit := by
    cases hcompile : env.compile {} (env.resolve .empty twicePlusTwo).1 with
    | error err =>
      rw [hcompile] at hunit
      cases hunit
    | ok unit' =>
      rw [hcompile] at hunit
      exact congrArg Except.ok (Option.some.inj hunit)
  exact ⟨unit, hcompiled, Environment.compile_sharesExactly reachable_env .empty
    resolved_twicePlusTwo hcompiled, hfour, by decide +kernel, by decide +kernel⟩

end Sums

end Formula
