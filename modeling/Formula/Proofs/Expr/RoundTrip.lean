import Formula.Expr.Document
import Formula.Proofs.Expr.Resolution
import Formula.Proofs.Value.RoundTrip
/-!
Expressions read back from their texts. The text of an expression is refused if more arrays and
objects are open in it at once than may be, or if a constant holds a real number that is not finite.
Otherwise it is read as the expression as it was written, without types and overloads, and with each
real number as its own text is read; so with none changed if each of them is read as itself.
-/

namespace Formula.Expr

/-! ### What is read -/

/-- The real numbers that the constants of an expression hold. -/
def doubles (e : Expr) : List Double :=
  (nodes e).flatMap fun
    | const _ value _ _ => value.doubles
    | _ => []

mutual

/-- The expression that is read from the document of an expression, if one is. -/
def reread? : Expr → Option Expr
  | group _ cs => do some (group .pending (← rereadAll? cs))
  | var _ name => some (var .pending name)
  | const _ value typeName text => do some (const .pending (← value.reread?) typeName text)
  | op _ name cs _ => do some (op .pending name (← rereadAll? cs) none)

/-- Each expression that is read, if all of them are. -/
def rereadAll? : List Expr → Option (List Expr)
  | [] => some []
  | e :: es => do some ((← reread? e) :: (← rereadAll? es))

end

theorem isSome_rereadAll? {es : List Expr} (h : (rereadAll? es).isSome) :
    ∀ e ∈ es, (reread? e).isSome := by
  induction es with
  | nil => simp
  | cons e es ih =>
    simp only [rereadAll?] at h
    cases he : reread? e <;> cases hes : rereadAll? es <;> simp_all

theorem rereadAll?_eq_none {es : List Expr} {e : Expr} (he : e ∈ es) (h : e.reread? = none) :
    rereadAll? es = none := by
  refine Option.not_isSome_iff_eq_none.1 fun hsome => ?_
  have hread := isSome_rereadAll? hsome e he
  rw [h] at hread
  exact absurd hread (by decide)

theorem documents_eq_map (es : List Expr) : documents es = es.map document := by
  induction es with
  | nil => rfl
  | cons e es ih => simp [documents, ih]

/-! ### The document of an expression -/

theorem writable_children {cs : List Expr} (h : ∀ c ∈ cs, c.document.Writable) :
    (Json.array (documents cs)).Writable := by
  rw [documents_eq_map]
  exact .array (List.forall_mem_map.2 h)

theorem writable_document (e : Expr) : e.document.Writable := by
  induction e with
  | var slot name =>
    refine Json.writable_ofFields ?_
    simp [Json.writable_ofString]
  | const slot value typeName text =>
    refine Json.writable_ofFields ?_
    cases text <;> simp [Json.writable_ofString, Value.writable_document]
  | group slot cs ih | op slot name cs r ih =>
    refine Json.writable_ofFields ?_
    simp [Json.writable_ofString, writable_children ih]

theorem isSound_children {cs : List Expr} {b : Nat}
    (ih : ∀ c ∈ cs, ∀ {b : Nat}, c.reread?.isSome → c.document.nesting ≤ b →
      c.document.reread.isSound b)
    (hread : (rereadAll? cs).isSome) (hb : (Json.array (documents cs)).nesting ≤ b) :
    (Json.array (documents cs)).reread.isSound b := by
  rw [documents_eq_map] at hb ⊢
  obtain ⟨hopen, hchildren⟩ := Json.nesting_array_le.1 hb
  rw [Json.reread, Json.isSound_array, Json.rereadAll_eq_map]
  simp only [List.forall_mem_map] at hchildren ⊢
  exact ⟨hopen, fun c hc => ih c hc (isSome_rereadAll? hread c hc) (hchildren c hc)⟩

/-- What is read as an expression can be held as data, if as many arrays and objects may be open. -/
theorem isSound_document {e : Expr} : ∀ {b : Nat}, e.reread?.isSome → e.document.nesting ≤ b →
    e.document.reread.isSound b := by
  induction e with
  | var slot name =>
    intro b _ hb
    obtain ⟨hopen, -⟩ := Json.nesting_ofFields_le.1 hb
    rw [document, Json.reread_ofFields, Json.isSound_ofFields]
    simpa using hopen
  | const slot value typeName text =>
    intro b hread hb
    obtain ⟨hopen, hfields⟩ := Json.nesting_ofFields_le.1 hb
    have hvalue := Value.isSound_document (Option.isSome_of_isSome_bind hread)
      (hfields ("value", value.document) (by simp))
    rw [document, Json.reread_ofFields, Json.isSound_ofFields]
    cases text <;> simpa using ⟨hopen, hvalue⟩
  | group slot cs ih | op slot name cs r ih =>
    intro b hread hb
    obtain ⟨hopen, hfields⟩ := Json.nesting_ofFields_le.1 hb
    have hchildren := isSound_children ih (Option.isSome_of_isSome_bind hread)
      (hfields ("children", .array (documents cs)) (by simp))
    rw [document, Json.reread_ofFields, Json.isSound_ofFields]
    simpa using ⟨hopen, hchildren⟩

/-! ### Reading it -/

theorem mapM_ofDocument? {cs : List Expr} {depth : Nat}
    (h : ∀ c ∈ cs, ofDocument? depth c.document.reread = c.reread?) :
    (Json.rereadAll (documents cs)).mapM (ofDocument? depth) = rereadAll? cs := by
  induction cs with
  | nil => rfl
  | cons c cs ih =>
    obtain ⟨hc, hcs⟩ := List.forall_mem_cons.1 h
    simp [documents, Json.rereadAll, rereadAll?, hc, ih hcs]

theorem mapM_children {cs : List Expr} {depth : Nat}
    (ih : ∀ c ∈ cs, ∀ {depth : Nat}, c.document.nesting ≤ depth →
      ofDocument? depth c.document.reread = c.reread?)
    (hdepth : (Json.array (documents cs)).nesting ≤ depth) :
    (Json.rereadAll (documents cs)).mapM (ofDocument? depth) = rereadAll? cs := by
  obtain ⟨-, hchildren⟩ := Json.nesting_array_le.1 hdepth
  rw [documents_eq_map] at hchildren
  refine mapM_ofDocument? fun c hc => ih c hc ?_
  exact Nat.le_trans (List.forall_mem_map.1 hchildren c hc) (Nat.sub_le depth 1)

theorem nodeNameOf?_ofString {name : String} (h : nodeNames.contains name) :
    nodeNameOf? (.ofString name) = some name := by
  rw [Json.ofString, nodeNameOf?, if_pos h]

theorem shownTextOf?_ofString (t : String) :
    shownTextOf? (some (.ofString t)) = some (some t) := rfl

/-- The document of an expression is read if as many nodes may lie within each other as there are
arrays and objects: each level of nodes takes one object at least. -/
theorem ofDocument?_reread {e : Expr} : ∀ {depth : Nat}, e.document.nesting ≤ depth →
    ofDocument? depth e.document.reread = e.reread? := by
  have hgroup : nodeNames.contains "group" := by decide
  have hvar : nodeNames.contains "variable" := by decide
  have hconst : nodeNames.contains "constant" := by decide
  have hop : nodeNames.contains "operator" := by decide
  induction e with
  | var slot name =>
    intro depth hdepth
    obtain ⟨hopen, -⟩ := Json.nesting_ofFields_le.1 hdepth
    obtain ⟨n, rfl⟩ := Nat.exists_eq_succ_of_ne_zero (Nat.ne_of_gt hopen)
    simp [document, ofDocument?, Json.once?, Json.atMostOnce, nodeNameOf?_ofString hvar, reread?]
  | const slot value typeName text =>
    intro depth hdepth
    obtain ⟨hopen, -⟩ := Json.nesting_ofFields_le.1 hdepth
    obtain ⟨n, rfl⟩ := Nat.exists_eq_succ_of_ne_zero (Nat.ne_of_gt hopen)
    cases text with
    | none =>
      simp [document, ofDocument?, Json.once?, Json.atMostOnce, nodeNameOf?_ofString hconst,
        Value.ofDocument?_reread, shownTextOf?, reread?]
    | some t =>
      simp [document, ofDocument?, Json.once?, Json.atMostOnce, nodeNameOf?_ofString hconst,
        Value.ofDocument?_reread, shownTextOf?_ofString, reread?]
  | group slot cs ih =>
    intro depth hdepth
    obtain ⟨hopen, hfields⟩ := Json.nesting_ofFields_le.1 hdepth
    obtain ⟨n, rfl⟩ := Nat.exists_eq_succ_of_ne_zero (Nat.ne_of_gt hopen)
    have hchildren : (Json.rereadAll (documents cs)).mapM (ofDocument? n) = rereadAll? cs :=
      mapM_children ih (hfields ("children", .array (documents cs)) (by simp))
    simp [document, ofDocument?, Json.once?, Json.atMostOnce, nodeNameOf?_ofString hgroup,
      Json.reread, Json.array?, hchildren, reread?]
  | op slot name cs r ih =>
    intro depth hdepth
    obtain ⟨hopen, hfields⟩ := Json.nesting_ofFields_le.1 hdepth
    obtain ⟨n, rfl⟩ := Nat.exists_eq_succ_of_ne_zero (Nat.ne_of_gt hopen)
    have hchildren : (Json.rereadAll (documents cs)).mapM (ofDocument? n) = rereadAll? cs :=
      mapM_children ih (hfields ("children", .array (documents cs)) (by simp))
    simp [document, ofDocument?, Json.once?, Json.atMostOnce, nodeNameOf?_ofString hop,
      Json.reread, Json.array?, hchildren, reread?]

/-- **What is read from the text of an expression**: nothing, if more arrays and objects are open at
once than may be; otherwise the expression as written, with each real number as its text is read. -/
theorem parse?_json (e : Expr) :
    parse? e.json = if e.document.nesting ≤ Json.depthLimit then e.reread? else none := by
  have hparse : Json.parse? e.json = some e.document.reread :=
    Json.parse?_render (writable_document e)
  rw [parse?, hparse]
  dsimp only [Option.bind_eq_bind, Option.bind_some]
  by_cases hnesting : e.document.nesting ≤ Json.depthLimit
  · rw [if_pos hnesting, ofDocument?_reread hnesting]
    cases hread : e.reread? with
    | none => exact ite_self none
    | some e' => exact if_pos (isSound_document (hread ▸ rfl) hnesting)
  · have hsound : ¬e.document.reread.isSound Json.depthLimit = true := fun h =>
      hnesting (Json.nesting_le_of_isSound (writable_document e) h)
    rw [if_neg hnesting, if_neg hsound]

/-! ### Expressions whose numbers are read as themselves -/

@[simp] theorem doubles_var (slot : TypeSlot) (name : String) : doubles (var slot name) = [] := rfl

@[simp] theorem doubles_const (slot : TypeSlot) (value : Value) (typeName : String)
    (text : Option String) : doubles (const slot value typeName text) = value.doubles := by
  simp [doubles]

@[simp] theorem doubles_group (slot : TypeSlot) (cs : List Expr) :
    doubles (group slot cs) = cs.flatMap doubles := by
  rw [doubles, nodes_group, List.flatMap_append, List.flatMap_assoc, List.flatMap_singleton,
    List.append_nil]
  rfl

@[simp] theorem doubles_op (slot : TypeSlot) (name : String) (cs : List Expr)
    (r : Option Resolution) : doubles (op slot name cs r) = cs.flatMap doubles := by
  rw [doubles, nodes_op, List.flatMap_append, List.flatMap_assoc, List.flatMap_singleton,
    List.append_nil]
  rfl

theorem rereadAll?_of_forall {cs : List Expr} (h : ∀ c ∈ cs, c.reread? = some c.bare) :
    rereadAll? cs = some (bareAll cs) := by
  induction cs with
  | nil => rfl
  | cons c cs ih =>
    obtain ⟨hc, hcs⟩ := List.forall_mem_cons.1 h
    simp [rereadAll?, bareAll, hc, ih hcs]

/-- Where each real number is read as itself, the expression is read as written. -/
theorem reread?_of_doubles {e : Expr} (h : ∀ x ∈ e.doubles, x.reread? = some x) :
    e.reread? = some e.bare := by
  induction e with
  | var slot name => rfl
  | const slot value typeName text =>
    simp [reread?, bare, Value.reread?_of_doubles (by simpa using h)]
  | group slot cs ih | op slot name cs r ih =>
    have hcs := rereadAll?_of_forall fun c hc =>
      ih c hc fun x hx => h x (by simpa using ⟨c, hc, hx⟩)
    simp [reread?, bare, hcs]

/-- Where a real number is not finite, nothing is read. -/
theorem reread?_of_not_finite {e : Expr} (h : ∃ x ∈ e.doubles, ¬x.isFinite) : e.reread? = none := by
  induction e with
  | var slot name => simp at h
  | const slot value typeName text =>
    simp [reread?, Value.reread?_of_not_finite (by simpa using h)]
  | group slot cs ih | op slot name cs r ih =>
    obtain ⟨x, hx, hfinite⟩ := h
    obtain ⟨c, hc, hxc⟩ : ∃ c ∈ cs, x ∈ c.doubles := by simpa using hx
    have hnone := rereadAll?_eq_none hc (ih c hc ⟨x, hxc, hfinite⟩)
    simp [reread?, hnone]

/-! ### The round trip -/

/-- **An expression is never read as another one**, if each finite number in its constants is read
as itself: its text is refused, or read as the expression as written. It is read just if all these
numbers are finite and never too many arrays and objects are open at once. -/
theorem json_round_trip (e : Expr) (h : ∀ x ∈ e.doubles, x.isFinite → x.reread? = some x) :
    (parse? e.json = none ∨ parse? e.json = some e.bare) ∧
    (parse? e.json = some e.bare ↔
      (∀ x ∈ e.doubles, x.isFinite) ∧ e.document.nesting ≤ Json.depthLimit) := by
  rw [parse?_json]
  by_cases hfinite : ∀ x ∈ e.doubles, x.isFinite
  · rw [reread?_of_doubles fun x hx => h x hx (hfinite x hx)]
    have hall : (∀ x ∈ e.doubles, x.isFinite) ↔ True := iff_true_intro hfinite
    by_cases hnesting : e.document.nesting ≤ Json.depthLimit <;> simp [hnesting, hall]
  · have hnone : e.reread? = none := reread?_of_not_finite (by simpa using hfinite)
    simp [hnone, hfinite]

/-- A sum with constants of every kind, whose types and overload are filled in. -/
def typedSum : Expr :=
  op (.resolved { name := "real" }) "+"
    [group .unresolved [var (.resolved { name := "real" }) "\"x\n\""],
      const .pending (.real (1 / 2)) "real" (some "½"),
      const .pending (.complex ⟨-0, 3⟩) "complex" none,
      const .pending (.interval ⟨-1, 1 / 4, 7⟩) "real" none,
      const .pending (.int (-9223372036854775808)) "integer" none,
      const .pending (.bool true) "boolean" (some ""),
      const .pending (.boolInterval ⟨false, true, 3⟩) "boolean" none]
    (some ⟨{ name := "+", arguments := [], result := { name := "real" } }, [], 0⟩)

theorem typedSum_round_trip : parse? typedSum.json = some typedSum.bare := by
  have hread : ∀ x ∈ typedSum.doubles, x.isFinite → x.reread? = some x := by decide +kernel
  have hfinite : ∀ x ∈ typedSum.doubles, x.isFinite := by decide +kernel
  have hnesting : typedSum.document.nesting ≤ Json.depthLimit := by decide +kernel
  exact (json_round_trip typedSum hread).2.2 ⟨hfinite, hnesting⟩

end Formula.Expr
