import Formula.Proofs.Environment.Entries
/-!
Registries over whole histories of requests. What has been given back, in order, tells what the
registries hold: of the types under a name the first stays, of the conversions between two names the
last one counts, and overloads line up. The main statement is `history_tells`.
-/

namespace Formula

namespace Entry

/-- The concrete type that is given back. -/
def concreteType? : Entry → Option ConcreteType
  | concreteType c => some c
  | _ => none

/-- The mathematical type that is given back. -/
def mathType? : Entry → Option MathType
  | mathType t => some t
  | _ => none

/-- The conversion between mathematical types that is given back. -/
def mathCast? : Entry → Option MathCast
  | mathCast c => some c
  | _ => none

/-- The conversion between concrete types that is given back. -/
def concreteCast? : Entry → Option ConcreteCast
  | concreteCast c => some c
  | _ => none

/-- The overload that is given back. -/
def overload? : Entry → Option Overload
  | overload o => some o
  | _ => none

variable {e : Entry}

theorem mathCast?_eq_some {c : MathCast} : e.mathCast? = some c ↔ e = .mathCast c := by
  cases e <;> simp [mathCast?]

theorem concreteCast?_eq_some {c : ConcreteCast} :
    e.concreteCast? = some c ↔ e = .concreteCast c := by
  cases e <;> simp [concreteCast?]

theorem mathType?_eq_some {t : MathType} : e.mathType? = some t ↔ e = .mathType t := by
  cases e <;> simp [mathType?]

theorem overload?_eq_some {o : Overload} : e.overload? = some o ↔ e = .overload o := by
  cases e <;> simp [overload?]

end Entry

/-- The conversion is from one given name to another. -/
def MathCast.Joins (source target : String) (c : MathCast) : Prop :=
  c.source.name = source ∧ c.target.name = target

/-- The conversion is from one given name to another. -/
def ConcreteCast.Joins (source target : String) (c : ConcreteCast) : Prop :=
  c.source.name = source ∧ c.target.name = target

instance (source target : String) : DecidablePred (MathCast.Joins source target) :=
  fun _ => instDecidableAnd

instance (source target : String) : DecidablePred (ConcreteCast.Joins source target) :=
  fun _ => instDecidableAnd

namespace Environment

/-! ### What one entry changes -/

namespace Enters

variable {env env' : Environment} {e : Entry}

theorem concrete_get? (h : env.Enters e env') (name : String) :
    env'.types.concrete.get? name =
      (env.types.concrete.get? name).or (e.concreteType?.filter (·.name = name)) := by
  cases h with
  | @knownConcreteType c known =>
    by_cases hname : c.name = name
    · subst hname
      simp [Entry.concreteType?, Option.filter, known]
    · simp [Entry.concreteType?, Option.filter, hname]
  | @concreteType c new =>
    rw [Directory.get?_insert]
    by_cases hname : c.name = name
    · subst hname
      simp [Entry.concreteType?, Option.filter, new]
    · simp [Entry.concreteType?, Option.filter, hname, Ne.symm hname]
  | _ => simp [Entry.concreteType?]

theorem mathematical_get? (h : env.Enters e env') (name : String) :
    env'.types.mathematical.get? name =
      (env.types.mathematical.get? name).or (e.mathType?.filter (·.name = name)) := by
  cases h with
  | @knownMathType t known =>
    by_cases hname : t.name = name
    · subst hname
      simp [Entry.mathType?, Option.filter, known]
    · simp [Entry.mathType?, Option.filter, hname]
  | @mathType t new represented =>
    rw [Directory.get?_insert]
    by_cases hname : t.name = name
    · subst hname
      simp [Entry.mathType?, Option.filter, new]
    · simp [Entry.mathType?, Option.filter, hname, Ne.symm hname]
  | _ => simp [Entry.mathType?]

theorem mathCasts_find? (h : env.Enters e env') (source target : String) :
    CastRegistry.find? env'.casts.mathematical source target =
      (e.mathCast?.filter (·.Joins source target)).or
        (CastRegistry.find? env.casts.mathematical source target) := by
  cases h with
  | @mathCast c apart =>
    rw [CastRegistry.find?_enter]
    by_cases hnames : source = c.source.name ∧ target = c.target.name
    · obtain ⟨rfl, rfl⟩ := hnames
      simp [Entry.mathCast?, MathCast.Joins, Option.filter]
    · have hjoins : ¬c.Joins source target := fun h => hnames ⟨h.1.symm, h.2.symm⟩
      simp [Entry.mathCast?, Option.filter, hnames, hjoins]
  | _ => simp [Entry.mathCast?]

theorem concreteCasts_find? (h : env.Enters e env') (source target : String) :
    CastRegistry.find? env'.casts.concrete source target =
      (e.concreteCast?.filter (·.Joins source target)).or
        (CastRegistry.find? env.casts.concrete source target) := by
  cases h with
  | @concreteCast c apart =>
    rw [CastRegistry.find?_enter]
    by_cases hnames : source = c.source.name ∧ target = c.target.name
    · obtain ⟨rfl, rfl⟩ := hnames
      simp [Entry.concreteCast?, ConcreteCast.Joins, Option.filter]
    · have hjoins : ¬c.Joins source target := fun h => hnames ⟨h.1.symm, h.2.symm⟩
      simp [Entry.concreteCast?, Option.filter, hnames, hjoins]
  | _ => simp [Entry.concreteCast?]

theorem candidates (h : env.Enters e env') (name : String) :
    env'.operators.candidates name = env.operators.candidates name ++
      (e.overload?.filter (·.name = name)).toList := by
  cases h with
  | @overload o formed =>
    rw [OperatorRegistry.candidates_register]
    by_cases hname : name = o.name
    · subst hname
      simp [Entry.overload?, OperatorRegistry.register, Option.filter]
    · simp [Entry.overload?, OperatorRegistry.register, Option.filter, hname, Ne.symm hname]
  | _ => simp [Entry.overload?]

end Enters

/-! ### What a history tells -/

/-- The environment after some requests. -/
def afterAll (env : Environment) (rs : List Request) : Environment :=
  rs.foldl after env

/-- What requests give back, in order; those that fail give nothing. -/
def entries (env : Environment) : List Request → List Entry
  | [] => []
  | r :: rs => ((r.entry.run env).1.toOption).toList ++ (env.after r).entries rs

/-- The registries hold what has been given back: the first type under a name, the last conversion
between two names, all overloads of a name in order. -/
structure Follows (env : Environment) (log : List Entry) : Prop where
  concrete : ∀ name, env.types.concrete.get? name =
    (log.filterMap Entry.concreteType?).find? (·.name = name)
  mathematical : ∀ name, env.types.mathematical.get? name =
    (log.filterMap Entry.mathType?).find? (·.name = name)
  mathCasts : ∀ source target, CastRegistry.find? env.casts.mathematical source target =
    (log.filterMap Entry.mathCast?).reverse.find? (·.Joins source target)
  concreteCasts : ∀ source target, CastRegistry.find? env.casts.concrete source target =
    (log.filterMap Entry.concreteCast?).reverse.find? (·.Joins source target)
  overloads : ∀ name, env.operators.candidates name =
    (log.filterMap Entry.overload?).filter (·.name = name)

section Follows

variable {env env' : Environment} {log : List Entry} {e : Entry}

theorem follows_empty (config : Config) : Follows { config } [] :=
  ⟨fun _ => rfl, fun _ => rfl, fun _ _ => rfl, fun _ _ => rfl, fun _ => rfl⟩

/-- An entry that is given back counts as the latest one. -/
theorem Follows.entered (h : env.Follows log) (henters : env.Enters e env') :
    env'.Follows (log ++ [e]) where
  concrete name := by
    rw [henters.concrete_get?, h.concrete, List.filterMap_append, List.find?_append]
    cases hx : e.concreteType? <;> simp [hx, Option.filter]
  mathematical name := by
    rw [henters.mathematical_get?, h.mathematical, List.filterMap_append, List.find?_append]
    cases hx : e.mathType? <;> simp [hx, Option.filter]
  mathCasts source target := by
    rw [henters.mathCasts_find?, h.mathCasts, List.filterMap_append, List.reverse_append,
      List.find?_append]
    cases hx : e.mathCast? <;> simp [hx, Option.filter]
  concreteCasts source target := by
    rw [henters.concreteCasts_find?, h.concreteCasts, List.filterMap_append, List.reverse_append,
      List.find?_append]
    cases hx : e.concreteCast? <;> simp [hx, Option.filter]
  overloads name := by
    rw [henters.candidates, h.overloads, List.filterMap_append, List.filter_append]
    cases hx : e.overload? <;> simp [hx, Option.filter, List.filter_cons, apply_ite Option.toList]

theorem Follows.after (h : env.Follows log) (r : Request) :
    (env.after r).Follows (log ++ ((r.entry.run env).1.toOption).toList) := by
  rcases r.entry_run env with ⟨err, hrun⟩ | ⟨e, env', hrun, henters⟩
  · rw [r.after_eq, hrun]
    simpa [Except.toOption] using h
  · rw [r.after_eq, hrun]
    exact h.entered henters

theorem Follows.afterAll (h : env.Follows log) (rs : List Request) :
    (env.afterAll rs).Follows (log ++ env.entries rs) := by
  induction rs generalizing env log with
  | nil =>
    rw [entries, List.append_nil]
    exact h
  | cons r rs ih =>
    rw [entries, ← List.append_assoc]
    exact ih (h.after r)

end Follows

/-! ### What stands under a name -/

/-- Whatever is registered stands under its own name. Representations are registered, conversions
are between different names, and every overload is one that can be made. -/
structure Consistent (env : Environment) : Prop where
  concrete : ∀ name c, env.types.concrete.get? name = some c → c.name = name
  mathematical : ∀ name t, env.types.mathematical.get? name = some t →
    t.name = name ∧ ∀ mode c, t.representation? mode = some c → env.types.Holds c
  mathCasts : ∀ source target c,
    CastRegistry.find? env.casts.mathematical source target = some c →
      c.Joins source target ∧ source ≠ target
  concreteCasts : ∀ source target c,
    CastRegistry.find? env.casts.concrete source target = some c →
      c.Joins source target ∧ source ≠ target
  overloads : ∀ name, ∀ o ∈ env.operators.candidates name, o.name = name ∧ o.Proper

section Consistent

variable {env env' : Environment} {e : Entry}

theorem Enters.concrete_stays (h : env.Enters e env') {name : String} {c : ConcreteType}
    (known : env.types.concrete.get? name = some c) : env'.types.concrete.get? name = some c := by
  rw [h.concrete_get?, known, Option.some_or]

theorem Enters.mathematical_stays (h : env.Enters e env') {name : String} {t : MathType}
    (known : env.types.mathematical.get? name = some t) :
    env'.types.mathematical.get? name = some t := by
  rw [h.mathematical_get?, known, Option.some_or]

theorem Enters.holds (h : env.Enters e env') {c : ConcreteType} (holds : env.types.Holds c) :
    env'.types.Holds c := by
  obtain ⟨known, hknown, hsame⟩ := holds
  exact ⟨known, h.concrete_stays hknown, hsame⟩

theorem consistent_empty (config : Config) : Consistent { config } :=
  ⟨fun _ _ h => (nomatch h), fun _ _ h => (nomatch h), fun _ _ _ h => (nomatch h),
    fun _ _ _ h => (nomatch h), fun _ _ h => (nomatch h)⟩

theorem Consistent.entered (h : env.Consistent) (henters : env.Enters e env') :
    env'.Consistent where
  concrete name c hc := by
    rw [henters.concrete_get?, Option.or_eq_some_iff] at hc
    rcases hc with hc | ⟨-, hc⟩
    · exact h.concrete name c hc
    · exact of_decide_eq_true (Option.filter_eq_some_iff.1 hc).2
  mathematical name t ht := by
    rw [henters.mathematical_get?, Option.or_eq_some_iff] at ht
    rcases ht with ht | ⟨hnew, ht⟩
    · obtain ⟨hname, hreps⟩ := h.mathematical name t ht
      exact ⟨hname, fun mode c hc => henters.holds (hreps mode c hc)⟩
    · obtain ⟨he, hname⟩ := Option.filter_eq_some_iff.1 ht
      obtain rfl := of_decide_eq_true hname
      obtain rfl := Entry.mathType?_eq_some.1 he
      refine ⟨rfl, fun mode c hc => henters.holds ?_⟩
      cases henters with
      | knownMathType known => exact (h.mathematical t.name t known).2 mode c hc
      | mathType new represented => exact represented _ (Directory.mem_entries_of_get? hc)
  mathCasts source target c hc := by
    rw [henters.mathCasts_find?, Option.or_eq_some_iff] at hc
    rcases hc with hc | ⟨-, hc⟩
    · obtain ⟨he, hjoins⟩ := Option.filter_eq_some_iff.1 hc
      obtain ⟨rfl, rfl⟩ := of_decide_eq_true hjoins
      obtain rfl := Entry.mathCast?_eq_some.1 he
      cases henters with
      | mathCast apart => exact ⟨⟨rfl, rfl⟩, apart⟩
    · exact h.mathCasts source target c hc
  concreteCasts source target c hc := by
    rw [henters.concreteCasts_find?, Option.or_eq_some_iff] at hc
    rcases hc with hc | ⟨-, hc⟩
    · obtain ⟨he, hjoins⟩ := Option.filter_eq_some_iff.1 hc
      obtain ⟨rfl, rfl⟩ := of_decide_eq_true hjoins
      obtain rfl := Entry.concreteCast?_eq_some.1 he
      cases henters with
      | concreteCast apart => exact ⟨⟨rfl, rfl⟩, apart⟩
    · exact h.concreteCasts source target c hc
  overloads name o ho := by
    rw [henters.candidates, List.mem_append] at ho
    rcases ho with ho | ho
    · exact h.overloads name o ho
    · obtain ⟨he, hname⟩ := Option.filter_eq_some_iff.1 (Option.mem_toList.1 ho)
      obtain rfl := of_decide_eq_true hname
      obtain rfl := Entry.overload?_eq_some.1 he
      cases henters with
      | overload formed => exact ⟨rfl, formed.proper _⟩

theorem Reachable.consistent (h : env.Reachable) : env.Consistent :=
  h.entered consistent_empty fun henters hc => hc.entered henters

end Consistent

end Environment

/-! ### Types that are registered again -/

theorem ConcreteType.sameDefinition_iff {c d : ConcreteType} : c.sameDefinition d = true ↔
    c.name = d.name ∧ c.isPrimitive = d.isPrimitive ∧ c.stamp = d.stamp := by
  simp [sameDefinition, and_assoc]

theorem ConcreteType.sameDefinition_refl (c : ConcreteType) : c.sameDefinition c = true :=
  sameDefinition_iff.2 ⟨rfl, rfl, rfl⟩

theorem ConcreteType.sameDefinition_trans {c d e : ConcreteType} (h : c.sameDefinition d = true)
    (h' : d.sameDefinition e = true) : c.sameDefinition e = true := by
  rw [sameDefinition_iff] at *
  exact ⟨h.1.trans h'.1, h.2.1.trans h'.2.1, h.2.2.trans h'.2.2⟩

theorem ConcreteType.sameDefinition_symm {c d : ConcreteType} (h : c.sameDefinition d = true) :
    d.sameDefinition c = true := by
  rw [sameDefinition_iff] at *
  exact ⟨h.1.symm, h.2.1.symm, h.2.2.symm⟩

/-- Two mathematical types are one down to the definitions of their representations. -/
def MathType.Repeats (t u : MathType) : Prop :=
  u.sameDefinition t = true ∧ ∀ mode c, t.representation? mode = some c →
    ∃ known, u.representation? mode = some known ∧ known.sameDefinition c = true

/-- Modes and names of concrete types outline a mathematical type. Of two names for a mode the last
one counts, but all must be known. -/
def MathType.OutlinedBy (t : MathType) (types : TypeRegistry)
    (representations : List (Mode × String)) : Prop :=
  (∀ e ∈ representations, (types.concrete.get? e.2).isSome) ∧
    t.outline = (Directory.ofList representations).entries

namespace TypeRegistry

variable {r : TypeRegistry} {t known : MathType}

theorem registerMath_of_known (h : r.mathematical.get? t.name = some known) :
    ((∀ e ∈ t.representations.entries, r.Holds e.2) ∧ known.sameDefinition t = true →
      r.registerMath t = .ok (known, r)) ∧
    (¬((∀ e ∈ t.representations.entries, r.Holds e.2) ∧ known.sameDefinition t = true) →
      ∃ err, r.registerMath t = .error err) := by
  unfold registerMath
  cases hchecks : (t.representations.entries.forM fun e => r.checkRepresentation t e.1 e.2) with
  | error err =>
    refine ⟨fun hsame => ?_, fun _ => ⟨err, rfl⟩⟩
    rw [checkRepresentations_eq_ok.2 hsame.1] at hchecks
    cases hchecks
  | ok u =>
    have hholds := checkRepresentations_eq_ok.1 hchecks
    simp only [Except.ok_bind, h]
    cases known.sameDefinition t with
    | true => exact ⟨fun _ => rfl, fun hdiffers => (hdiffers ⟨hholds, rfl⟩).elim⟩
    | false => exact ⟨fun hsame => (nomatch hsame.2), fun _ => ⟨_, rfl⟩⟩

/-- If the representations of a type are registered, a type of the same modes and names has
registered representations if and only if it has the same ones. -/
theorem repeats_iff (hreps : ∀ mode c, known.representation? mode = some c → r.Holds c) :
    t.Repeats known ↔
      (∀ e ∈ t.representations.entries, r.Holds e.2) ∧ known.sameDefinition t = true := by
  constructor
  · rintro ⟨hsame, hdefinitions⟩
    refine ⟨fun e he => ?_, hsame⟩
    obtain ⟨k, hk, hkc⟩ := hdefinitions e.1 e.2 (Directory.get?_of_mem_entries he)
    obtain ⟨d, hd, hdk⟩ := hreps e.1 k hk
    refine ⟨d, ?_, ConcreteType.sameDefinition_trans hdk hkc⟩
    rw [← (ConcreteType.sameDefinition_iff.1 hkc).1]
    exact hd
  · rintro ⟨hholds, hsame⟩
    refine ⟨hsame, fun mode c hc => ?_⟩
    have houtline : known.outline = t.outline := by
      simp only [MathType.sameDefinition, Bool.and_eq_true, beq_iff_eq] at hsame
      exact hsame.2
    have hmem : (mode, c.name) ∈ known.outline :=
      houtline ▸ List.mem_map_of_mem (Directory.mem_entries_of_get? hc)
    obtain ⟨⟨mode, k⟩, hk, heq⟩ := List.mem_map.1 hmem
    obtain ⟨rfl, hname⟩ := Prod.mk.inj heq
    have hrep := Directory.get?_of_mem_entries hk
    -- both are the one type that is registered under the name
    obtain ⟨d, hd, hdk⟩ := hreps _ k hrep
    obtain ⟨d', hd', hdc⟩ := hholds _ (Directory.mem_entries_of_get? hc)
    rw [hname, hd'] at hd
    cases hd
    exact ⟨k, hrep, ConcreteType.sameDefinition_trans (ConcreteType.sameDefinition_symm hdk) hdc⟩

/-! ### Types that are registered by names again -/

theorem outline_represent (t : MathType) (mode : Mode) (c : ConcreteType) :
    (t.represent mode c).outline = Directory.place mode c.name t.outline := by
  change (Directory.place mode c t.representations.entries).map (fun e => (e.1, e.2.name)) =
    Directory.place mode c.name (t.representations.entries.map fun e => (e.1, e.2.name))
  induction t.representations.entries with
  | nil => rfl
  | cons e es ih =>
    simp only [Directory.place, List.map_cons]
    split
    · rfl
    · split
      · rfl
      · rw [List.map_cons, ih]

/-- A type with one more of the registered types as a representation. -/
def representBy (r : TypeRegistry) (t : MathType) (e : Mode × String) : Except Error MathType := do
  pure (t.represent e.1 (← r.concreteType e.2))

theorem represent_of_known {reps : List (Mode × String)}
    (named : ∀ name c, r.concrete.get? name = some c → c.name = name)
    (known : ∀ e ∈ reps, (r.concrete.get? e.2).isSome)
    (holds : ∀ e ∈ t.representations.entries, r.Holds e.2) :
    ∃ u, reps.foldlM r.representBy t = .ok u ∧ u.name = t.name ∧
      u.outline = reps.foldl (fun es e => Directory.place e.1 e.2 es) t.outline ∧
      ∀ e ∈ u.representations.entries, r.Holds e.2 := by
  induction reps generalizing t with
  | nil => exact ⟨t, rfl, rfl, rfl, holds⟩
  | cons e reps ih =>
    rw [List.forall_mem_cons] at known
    obtain ⟨c, hc⟩ := Option.isSome_iff_exists.1 known.1
    have hstep : r.representBy t e = .ok (t.represent e.1 c) := by
      rw [representBy, concreteType_eq_ok.2 hc]
      rfl
    obtain ⟨u, hu, hname, houtline, hholds⟩ := ih (t := t.represent e.1 c) known.2 fun x hx => by
      rcases Directory.mem_place hx with rfl | hx
      · exact ⟨c, (named e.2 c hc).symm ▸ hc, c.sameDefinition_refl⟩
      · exact holds x hx
    refine ⟨u, ?_, hname, ?_, hholds⟩
    · rw [List.foldlM_cons, hstep]
      exact hu
    · rw [houtline, outline_represent, named e.2 c hc, List.foldl_cons]

theorem represent_of_unknown {reps : List (Mode × String)}
    (unknown : ¬∀ e ∈ reps, (r.concrete.get? e.2).isSome) :
    ∃ err, reps.foldlM r.representBy t = .error err := by
  induction reps generalizing t with
  | nil => exact (unknown (by simp)).elim
  | cons e reps ih =>
    rw [List.foldlM_cons]
    cases hstep : r.representBy t e with
    | error err => exact ⟨err, rfl⟩
    | ok u =>
      obtain ⟨c, hc, -⟩ := Except.bind_eq_ok.1 hstep
      refine ih fun hreps => unknown (List.forall_mem_cons.2 ⟨?_, hreps⟩)
      rw [concreteType_eq_ok.1 hc]
      rfl

theorem entries_ofList (reps : List (Mode × String)) : (Directory.ofList reps).entries =
    reps.foldl (fun es e => Directory.place e.1 e.2 es) [] :=
  (List.foldl_hom Directory.entries fun _ _ => rfl).symm

theorem defineMath_of_known {reps : List (Mode × String)}
    (named : ∀ name c, r.concrete.get? name = some c → c.name = name)
    (h : r.mathematical.get? known.name = some known) :
    (known.OutlinedBy r reps → r.defineMath known.name reps = .ok (known, r)) ∧
    (¬known.OutlinedBy r reps → ∃ err, r.defineMath known.name reps = .error err) := by
  change (_ → (reps.foldlM r.representBy _ >>= r.registerMath) = _) ∧
    (_ → ∃ err, (reps.foldlM r.representBy _ >>= r.registerMath) = _)
  by_cases hknown : ∀ e ∈ reps, (r.concrete.get? e.2).isSome
  · obtain ⟨u, hu, hname, houtline, hholds⟩ :=
      represent_of_known (t := { name := known.name }) named hknown fun e he => nomatch he
    have hregister := registerMath_of_known (t := u) (hname ▸ h)
    have hsame : known.sameDefinition u = true ↔
        known.outline = (Directory.ofList reps).entries := by
      rw [entries_ofList, MathType.sameDefinition, houtline, hname]
      simp [MathType.outline, Directory.empty]
    rw [hu]
    exact ⟨fun houtlined => hregister.1 ⟨hholds, hsame.2 houtlined.2⟩,
      fun hother => hregister.2 fun hu => hother ⟨hknown, hsame.1 hu.2⟩⟩
  · obtain ⟨err, herr⟩ := represent_of_unknown (t := { name := known.name }) hknown
    rw [herr]
    exact ⟨fun houtlined => (hknown houtlined.1).elim, fun _ => ⟨err, rfl⟩⟩

end TypeRegistry

/-! ### Whole histories -/

namespace Environment

open Registration

/-- What an environment holds is not lost. Requests that fail change nothing, types stay whatever
follows, and to register a type once more is to get it back or to be refused. -/
structure Lasting (env : Environment) : Prop where
  failed : ∀ (r : Request) err, (r.entry.run env).1 = .error err → env.after r = env
  concrete : ∀ name c, env.types.concrete.get? name = some c →
    ∀ rs, (env.afterAll rs).types.concrete.get? name = some c
  mathematical : ∀ name t, env.types.mathematical.get? name = some t →
    ∀ rs, (env.afterAll rs).types.mathematical.get? name = some t
  concreteAgain : ∀ known c, env.types.concrete.get? c.name = some known →
    (known.sameDefinition c = true → (registerConcreteType c).run env = (.ok known, env)) ∧
    (known.sameDefinition c = false → ∃ err, (registerConcreteType c).run env = (.error err, env))
  mathAgain : ∀ known t, env.types.mathematical.get? t.name = some known →
    (t.Repeats known → (registerMathType t).run env = (.ok known, env)) ∧
    (¬t.Repeats known → ∃ err, (registerMathType t).run env = (.error err, env))
  definedAgain : ∀ known reps, env.types.mathematical.get? known.name = some known →
    (known.OutlinedBy env.types reps →
      (defineMathType known.name reps).run env = (.ok known, env)) ∧
    (¬known.OutlinedBy env.types reps →
      ∃ err, (defineMathType known.name reps).run env = (.error err, env))

variable {env : Environment}

theorem concrete_afterAll {name : String} {c : ConcreteType}
    (h : env.types.concrete.get? name = some c) (rs : List Request) :
    (env.afterAll rs).types.concrete.get? name = some c := by
  induction rs generalizing env with
  | nil => exact h
  | cons r rs ih =>
    have hstep : (env.after r).types.concrete.get? name = some c := by
      rcases r.entry_run env with ⟨err, hrun⟩ | ⟨e, env', hrun, henters⟩ <;> rw [r.after_eq, hrun]
      · exact h
      · exact henters.concrete_stays h
    exact ih hstep

theorem mathematical_afterAll {name : String} {t : MathType}
    (h : env.types.mathematical.get? name = some t) (rs : List Request) :
    (env.afterAll rs).types.mathematical.get? name = some t := by
  induction rs generalizing env with
  | nil => exact h
  | cons r rs ih =>
    have hstep : (env.after r).types.mathematical.get? name = some t := by
      rcases r.entry_run env with ⟨err, hrun⟩ | ⟨e, env', hrun, henters⟩ <;> rw [r.after_eq, hrun]
      · exact h
      · exact henters.mathematical_stays h
    exact ih hstep

theorem Consistent.lasting (h : env.Consistent) : env.Lasting where
  failed r err herr := by
    rw [r.after_eq]
    exact Request.error_run herr
  concrete name c := concrete_afterAll
  mathematical name t := mathematical_afterAll
  concreteAgain known c hknown := by
    rw [registerConcreteType, run_step, TypeRegistry.registerConcrete, hknown]
    constructor
    · intro hsame
      simp [hsame]
    · intro hother
      simp only [hother]
      exact ⟨_, rfl⟩
  mathAgain known t hknown := by
    rw [TypeRegistry.repeats_iff (h.mathematical t.name known hknown).2]
    have hregister := TypeRegistry.registerMath_of_known hknown
    constructor
    · intro hsame
      rw [registerMathType, run_step, hregister.1 hsame]
      rfl
    · intro hother
      obtain ⟨err, herr⟩ := hregister.2 hother
      refine ⟨err, ?_⟩
      rw [registerMathType, run_step, herr]
      rfl
  definedAgain known reps hknown := by
    have hdefine := @TypeRegistry.defineMath_of_known env.types known reps h.concrete hknown
    constructor
    · intro hsame
      rw [defineMathType, run_step, hdefine.1 hsame]
      rfl
    · intro hother
      obtain ⟨err, herr⟩ := hdefine.2 hother
      refine ⟨err, ?_⟩
      rw [defineMathType, run_step, herr]
      rfl

theorem reachable_afterAll (h : env.Reachable) (rs : List Request) :
    (env.afterAll rs).Reachable := by
  induction rs generalizing env with
  | nil => exact h
  | cons r rs ih => exact ih (h.after r)

/-- Whatever has been requested of an empty environment, the registries hold what has been given
back, each entry under its own name, and will go on to do so. Between different types it is the
latest conversion that is found. -/
theorem history_tells (config : Config) (rs : List Request) :
    (afterAll { config } rs).Follows (entries { config } rs) ∧
    (afterAll { config } rs).Consistent ∧
    (afterAll { config } rs).Lasting ∧
    (∀ source target : MathType, source.name ≠ target.name →
      (afterAll { config } rs).casts.mathCast? source target =
        (((entries { config } rs).filterMap Entry.mathCast?).reverse.find?
          (·.Joins source.name target.name)).map .convert) ∧
    (∀ source target : ConcreteType, source.name ≠ target.name →
      (afterAll { config } rs).casts.concreteCast? source target =
        (((entries { config } rs).filterMap Entry.concreteCast?).reverse.find?
          (·.Joins source.name target.name)).map .convert) := by
  have hfollows := (follows_empty config).afterAll rs
  rw [List.nil_append] at hfollows
  have hconsistent := (reachable_afterAll (.empty config) rs).consistent
  refine ⟨hfollows, hconsistent, hconsistent.lasting, fun source target hne => ?_,
    fun source target hne => ?_⟩
  · rw [CastRegistry.mathCast?, if_neg hne, hfollows.mathCasts]
  · rw [CastRegistry.concreteCast?, if_neg hne, hfollows.concreteCasts]

end Environment

namespace Sums

/-- The registrations for sums, and some that come too late or once more: another type `real`, the
mathematical type `real`, another conversion between the same types, one from a type to itself, and
the sum. -/
def repeated : List Request :=
  requests ++ [.concreteType { real with stamp := 5 }, .mathType (mathType real),
    .mathCast { MathCast.between (mathType real) (mathType complex) with name := "lift" },
    .mathCast (.between (mathType real) (mathType real)), .overload sum formed_sum]

/-- Two of the requests fail. The type `real` is still the first, the conversion is the second, and
the sum has two overloads. -/
theorem history_of_repeats :
    (Environment.entries {} repeated).length = 10 ∧
    ((Environment.afterAll {} repeated).types.concrete.get? "real").map (·.stamp) = some 0 ∧
    ((Environment.afterAll {} repeated).casts.mathCast? (mathType real) (mathType complex)).map
      (·.text MathCast.name) = some "lift" ∧
    ((Environment.afterAll {} repeated).operators.candidates "+").map (·.rank) = [0, 1] ∧
    (Registration.registerMathType (mathType complex)).run (Environment.afterAll {} repeated) =
      (.ok (mathType complex), Environment.afterAll {} repeated) := by
  obtain ⟨hfollows, -, hlasting, hlookup, -⟩ := Environment.history_tells {} repeated
  refine ⟨by decide +kernel, ?_, ?_, ?_, ?_⟩
  · rw [hfollows.concrete]
    decide +kernel
  · rw [hlookup _ _ (by decide)]
    decide +kernel
  · rw [hfollows.overloads]
    decide +kernel
  · have known : (Environment.afterAll {} repeated).types.mathematical.get? "complex" =
        some (mathType complex) := by
      rw [hfollows.mathematical]
      rfl
    exact (hlasting.mathAgain (mathType complex) (mathType complex) known).1
      ⟨by decide, fun mode c hc => ⟨c, hc, c.sameDefinition_refl⟩⟩

end Sums

end Formula
