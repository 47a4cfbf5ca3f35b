import Formula.Proofs.Expr.Pieces
import Formula.Proofs.Json.Numbers
import Mathlib.Data.List.Induction
/-!
The text of an expression determines it, wherever the text stands. A name or a number ends at the
first character that does not continue it, a sign between operands at the next space. Signs before
an operand follow each other without spaces, and are told apart from the last one back, since no
sign ends in another. So the text has one row of pieces, and the row has one expression.
-/

namespace Formula

/-! ### Stretches of characters -/

/-- A stretch of one kind ends where that kind does. -/
theorem span_append_injective {α : Type} {p : α → Prop} {xs ys rest rest' : List α}
    (hxs : ∀ x ∈ xs, p x) (hys : ∀ y ∈ ys, p y) (hrest : ∀ x ∈ rest.head?, ¬p x)
    (hrest' : ∀ y ∈ rest'.head?, ¬p y) (h : xs ++ rest = ys ++ rest') : xs = ys ∧ rest = rest' := by
  induction xs generalizing ys with
  | nil =>
    cases ys with
    | nil => exact ⟨rfl, h⟩
    | cons y ys =>
      rw [List.nil_append, List.cons_append] at h
      exact absurd (hys y List.mem_cons_self) (hrest y (by simp [h]))
  | cons x xs ih =>
    cases ys with
    | nil =>
      rw [List.nil_append, List.cons_append] at h
      exact absurd (hxs x List.mem_cons_self) (hrest' x (by simp [← h]))
    | cons y ys =>
      rw [List.cons_append, List.cons_append, List.cons.injEq] at h
      obtain ⟨rfl, hrests⟩ :=
        ih (List.forall_mem_cons.1 hxs).2 (List.forall_mem_cons.1 hys).2 h.2
      exact ⟨h.1 ▸ rfl, hrests⟩

/-- The characters that signs are made of. -/
def marks : List Char := "|&=!<>+-*/^".toList

theorem mem_marks {sign : String} (h : sign ∈ signs) : ∀ c ∈ sign.toList, c ∈ marks := by
  have hall : (signs.all fun s => s.toList.all marks.contains) = true := by decide
  intro c hc
  exact List.contains_iff_mem.1 (List.all_eq_true.1 (List.all_eq_true.1 hall sign h) c hc)

theorem toList_ne_nil_of_mem_signs {sign : String} (h : sign ∈ signs) : sign.toList ≠ [] := by
  revert sign
  decide

/-- No sign ends in another. -/
theorem eq_of_suffix {s t : String} (hs : s ∈ signs) (ht : t ∈ signs) (h : s.toList <:+ t.toList) :
    s = t := by
  have hall : ∀ s ∈ signs, ∀ t ∈ signs, s.toList <:+ t.toList → s = t := by decide
  exact hall s hs t ht h

/-- Signs that follow each other without spaces are known from their characters. -/
theorem signs_injective {ss ts : List String} (hss : ∀ s ∈ ss, s ∈ signs)
    (hts : ∀ t ∈ ts, t ∈ signs) (h : ss.flatMap String.toList = ts.flatMap String.toList) :
    ss = ts := by
  induction ss using List.reverseRecOn generalizing ts with
  | nil =>
    cases ts with
    | nil => rfl
    | cons t ts =>
      have ht := hts t (by simp)
      rw [List.flatMap_cons] at h
      exact absurd (List.append_eq_nil_iff.1 h.symm).1 (toList_ne_nil_of_mem_signs ht)
  | append_singleton ss s ih =>
    have hs := hss s (by simp)
    rcases List.eq_nil_or_concat' ts with rfl | ⟨ts, t, rfl⟩
    · rw [List.flatMap_append, List.flatMap_singleton] at h
      exact absurd (List.append_eq_nil_iff.1 h).2 (toList_ne_nil_of_mem_signs hs)
    · have ht := hts t (by simp)
      simp only [List.flatMap_append, List.flatMap_singleton] at h
      -- one of the two ends in the other
      obtain rfl : s = t := by
        rcases List.append_eq_append_iff.1 h with ⟨cs, -, hcs⟩ | ⟨cs, -, hcs⟩
        · exact (eq_of_suffix ht hs ⟨cs, hcs.symm⟩).symm
        · exact eq_of_suffix hs ht ⟨cs, hcs.symm⟩
      rw [ih (fun z hz => hss z (by simp [hz])) (fun z hz => hts z (by simp [hz]))
        (List.append_cancel_right h)]

namespace Text

theorem continuesName_of_startsName {c : Char} (h : startsName c = true) :
    continuesName c = true := by
  unfold startsName at h
  unfold continuesName
  rw [Bool.or_eq_true] at h ⊢
  rw [Bool.or_eq_true]
  exact h.imp_left .inl

theorem exists_cons_of_isName {name : String} (h : isName name = true) :
    ∃ c cs, name.toList = c :: cs ∧ startsName c = true ∧
      ∀ d ∈ name.toList, continuesName d = true := by
  unfold isName at h
  cases hname : name.toList with
  | nil =>
    rw [hname] at h
    cases h
  | cons c cs =>
    rw [hname, isNameOf, Bool.and_eq_true, List.all_eq_true] at h
    exact ⟨c, cs, rfl, h.1, List.forall_mem_cons.2 ⟨continuesName_of_startsName h.1, h.2⟩⟩

/-- A digit continues a name and does not start one. -/
theorem name_of_isDigit {c : Char} (h : c.isDigit = true) :
    continuesName c = true ∧ startsName c = false := by
  have hall : ∀ n < 58, 48 ≤ n →
      continuesName (Char.ofNat n) = true ∧ startsName (Char.ofNat n) = false := by decide +kernel
  have hc : 48 ≤ c.toNat ∧ c.toNat ≤ 57 := by
    simpa [Char.isDigit, UInt32.le_iff_toNat_le] using h
  simpa using hall c.toNat (by omega) hc.1

theorem continuesName_eq_false {c : Char} (h : c ∈ '(' :: ')' :: ',' :: ' ' :: marks) :
    continuesName c = false := by
  have hall : (('(' :: ')' :: ',' :: ' ' :: marks).all fun c => !continuesName c) = true := by
    decide +kernel
  simpa using List.all_eq_true.1 hall c h

end Text

open Text

namespace Expr

/-! ### Atoms -/

/-- What stands behind an expression: nothing, or the next character closes or separates. -/
def Closing (rest : List Char) : Prop :=
  ∀ c ∈ rest.head?, c ∈ [')', ',']

/-- What stands behind a piece that is not a sign: besides, a sign between operands. -/
def Stop (rest : List Char) : Prop :=
  ∀ c ∈ rest.head?, c ∈ [')', ',', ' ']

theorem Closing.stop {rest : List Char} (h : Closing rest) : Stop rest :=
  fun c hc => List.mem_append_left [' '] (h c hc)

theorem Stop.continuesName {rest : List Char} (h : Stop rest) :
    ∀ c ∈ rest.head?, ¬continuesName c = true := by
  intro c hc
  have hc := h c hc
  rw [continuesName_eq_false (by simp at hc ⊢; tauto)]
  simp

/-- The text of an expression is known, whatever stands behind it. -/
def Known (e : Expr) : Prop :=
  ∀ e', Ordinary e' → ∀ {rest rest'}, Closing rest → Closing rest' →
    e.text.toList ++ rest = e'.text.toList ++ rest' → e = e' ∧ rest = rest'

/-- What stands behind the first of several expressions, up to a closing parenthesis. -/
def further : List Expr → List Char
  | [] => [')']
  | e :: es => ',' :: ' ' :: e.text.toList ++ further es

/-- Several expressions, up to a closing parenthesis. -/
def listed : List Expr → List Char
  | [] => [')']
  | e :: es => e.text.toList ++ further es

theorem closing_further (es : List Expr) (rest : List Char) : Closing (further es ++ rest) := by
  cases es <;> simp [Closing, further]

theorem further_append_injective {es es' : List Expr} {rest rest' : List Char}
    (known : ∀ e ∈ es, Known e) (ordinary : ∀ e ∈ es', Ordinary e)
    (h : further es ++ rest = further es' ++ rest') : es = es' ∧ rest = rest' := by
  induction es generalizing es' with
  | nil =>
    cases es' with
    | nil => exact ⟨rfl, (List.cons.inj h).2⟩
    | cons e' es' => simp [further] at h
  | cons e es ih =>
    cases es' with
    | nil => simp [further] at h
    | cons e' es' =>
      simp only [further, List.cons_append, List.append_assoc, List.cons.injEq, true_and] at h
      rw [List.forall_mem_cons] at known ordinary
      obtain ⟨rfl, hbehind⟩ :=
        known.1 e' ordinary.1 (closing_further es rest) (closing_further es' rest') h
      obtain ⟨rfl, hrests⟩ := ih known.2 ordinary.2 hbehind
      exact ⟨rfl, hrests⟩

theorem toList_intercalate_texts (es : List Expr) :
    (", ".intercalate (texts es)).toList ++ [')'] = listed es := by
  cases es with
  | nil => rfl
  | cons e es =>
    rw [String.toList_intercalate]
    induction es generalizing e with
    | nil => simp [texts, listed, further]
    | cons e' es ih =>
      have hbehind := ih e'
      simp only [texts, List.map_cons] at hbehind
      simp only [texts, List.map_cons, List.intercalate_cons_cons, List.append_assoc, hbehind]
      rfl

/-- A piece that is not a sign, with what the text of an ordinary expression can have there. -/
inductive Atom : Piece → Prop where
  | var {name : String} (valid : isName name = true) : Atom (.leaf (.var .pending name))
  | number {n : Int64} (nonneg : 0 ≤ n.toInt) :
      Atom (.leaf (.const .pending (.int n) "int" none))
  | call {name : String} {cs : List Expr} (valid : isName name = true)
      (arguments : ∀ c ∈ cs, Ordinary c) : Atom (.leaf (.op .pending name cs none))
  | enclosed {e : Expr} (operand : Ordinary e) : Atom (.enclosed e)

/-- The name or number that a piece begins with, if any. -/
def Piece.word : Piece → List Char
  | leaf (.op _ name _ _) => name.toList
  | leaf e => e.text.toList
  | _ => []

/-- The expressions that a piece has in parentheses, if it has any parentheses. -/
def Piece.inside? : Piece → Option (List Expr)
  | leaf (.op _ _ cs _) => some cs
  | enclosed e => some [e]
  | _ => none

/-- The expressions inside a piece are known. -/
def Piece.Settled (x : Piece) : Prop :=
  ∀ cs, x.inside? = some cs → ∀ c ∈ cs, Known c

theorem toList_ne_toDigits {name : String} (valid : isName name = true) (n : Nat) :
    name.toList ≠ Nat.toDigits 10 n := by
  obtain ⟨c, cs, hname, hstarts, -⟩ := exists_cons_of_isName valid
  intro h
  have hc : c ∈ Nat.toDigits 10 n := by simp [← h, hname]
  rw [(name_of_isDigit (Json.isDigit_of_mem_toDigits hc)).2] at hstarts
  cases hstarts

theorem toList_ne_nil_of_isName {name : String} (valid : isName name = true) :
    name.toList ≠ [] := by
  obtain ⟨c, cs, hname, -⟩ := exists_cons_of_isName valid
  simp [hname]

theorem toList_number {n : Int64} (nonneg : 0 ≤ n.toInt) :
    (Expr.const .pending (.int n) "int" none).text.toList = Nat.toDigits 10 n.toInt.natAbs := by
  have hchars := Json.toList_toString n.toInt
  rw [if_neg (Int.not_lt.2 nonneg)] at hchars
  exact hchars

/-- A word ends at a parenthesis, or where its piece does. -/
theorem not_continuesName_inside (x : Piece) {rest : List Char} (hrest : Stop rest) :
    ∀ c ∈ (x.inside?.elim [] ('(' :: listed ·) ++ rest).head?, ¬continuesName c = true := by
  cases x.inside? with
  | none => exact hrest.continuesName
  | some cs => simp [continuesName_eq_false (show '(' ∈ _ from List.mem_cons_self)]

namespace Atom

variable {x x' : Piece}

theorem chars_eq (hx : Atom x) : x.chars = x.word ++ x.inside?.elim [] ('(' :: listed ·) := by
  cases hx with
  | var | number => simp [Piece.chars, Piece.word, Piece.inside?]
  | @call name cs valid =>
    rw [Piece.chars, text_call (precedence?_eq_none_of_isName valid)]
    simp [Piece.word, Piece.inside?, parenthesized, ← toList_intercalate_texts]
  | enclosed => simp [Piece.chars, Piece.word, Piece.inside?, listed, further]

theorem continuesName (hx : Atom x) : ∀ c ∈ x.word, continuesName c = true := by
  cases hx with
  | var valid | call valid =>
    obtain ⟨-, -, -, -, hall⟩ := exists_cons_of_isName valid
    exact hall
  | number nonneg =>
    intro c hc
    simp only [Piece.word, toList_number nonneg] at hc
    exact (name_of_isDigit (Json.isDigit_of_mem_toDigits hc)).1
  | enclosed => simp [Piece.word]

/-- An atom is known from its word and what is inside it. -/
theorem eq_of_word_of_inside (hx : Atom x) (hx' : Atom x') (hword : x.word = x'.word)
    (hinside : x.inside? = x'.inside?) : x = x' := by
  cases hx with
  | @var name valid =>
    cases hx' with
    | @var name' =>
      obtain rfl : name = name' := String.toList_inj.1 hword
      rfl
    | number nonneg =>
      exact absurd (hword.trans (toList_number nonneg)) (toList_ne_toDigits valid _)
    | call | enclosed => cases hinside
  | @number n nonneg =>
    cases hx' with
    | var valid =>
      exact absurd (hword.symm.trans (toList_number nonneg)) (toList_ne_toDigits valid _)
    | @number n' nonneg' =>
      have hdigits := (toList_number nonneg).symm.trans (hword.trans (toList_number nonneg'))
      have habs := congrArg Decimal.ofDigits hdigits
      rw [Json.ofDigits_toDigits, Json.ofDigits_toDigits] at habs
      obtain rfl : n = n' := Int64.toInt_inj.1 (by omega)
      rfl
    | call | enclosed => cases hinside
  | call valid =>
    cases hx' with
    | var | number => cases hinside
    | call => rw [String.toList_inj.1 hword, Option.some.inj hinside]
    | enclosed => exact absurd hword (toList_ne_nil_of_isName valid)
  | enclosed =>
    cases hx' with
    | var | number => cases hinside
    | call valid => exact absurd hword.symm (toList_ne_nil_of_isName valid)
    | enclosed => rw [List.singleton_inj.1 (Option.some.inj hinside)]

/-- An atom begins as neither a sign does nor what stands behind an expression. -/
theorem head (hx : Atom x) : ∃ c cs, x.chars = c :: cs ∧ c ∉ ')' :: marks := by
  cases hword : x.word with
  | cons c cs =>
    refine ⟨c, _, by rw [hx.chars_eq, hword, List.cons_append], fun hc => ?_⟩
    have hcontinues := hx.continuesName c (by simp [hword])
    rw [continuesName_eq_false (by simp at hc ⊢; tauto)] at hcontinues
    cases hcontinues
  | nil =>
    cases hx with
    | var valid | call valid => exact absurd hword (toList_ne_nil_of_isName valid)
    | number nonneg =>
      exact absurd ((toList_number nonneg).symm.trans hword) Nat.toDigits_ne_nil
    | enclosed => exact ⟨'(', _, rfl, by decide⟩

theorem ordinary_of_inside (hx : Atom x) {cs : List Expr} (h : x.inside? = some cs) :
    ∀ c ∈ cs, Ordinary c := by
  cases hx with
  | var | number => cases h
  | call valid arguments =>
    cases h
    exact arguments
  | enclosed operand =>
    cases h
    simpa using operand

end Atom

/-! ### Rows -/

/-- Rows of pieces: signs and the atom that they stand before, and behind it perhaps a sign between
operands and a further row. -/
inductive Row : List Piece → Prop where
  | last {ss : List String} {x : Piece} (glued : ∀ s ∈ ss, s ∈ signs) (atom : Atom x) :
      Row (ss.map .before ++ [x])
  | next {ss : List String} {x : Piece} {s : String} {xs : List Piece} (glued : ∀ s ∈ ss, s ∈ signs)
      (atom : Atom x) (sign : s ∈ signs) (behind : Row xs) :
      Row (ss.map .before ++ x :: .between s :: xs)

namespace Row

variable {xs ys : List Piece} {s : String}

theorem single {x : Piece} (h : Atom x) : Row [x] :=
  .last (List.forall_mem_nil _) h

theorem before (sign : s ∈ signs) (h : Row xs) : Row (.before s :: xs) := by
  cases h with
  | @last ss x glued atom =>
    change Row ((s :: ss).map .before ++ [x])
    exact .last (List.forall_mem_cons.2 ⟨sign, glued⟩) atom
  | @next ss x t xs glued atom sign' behind =>
    change Row ((s :: ss).map .before ++ x :: .between t :: xs)
    exact .next (List.forall_mem_cons.2 ⟨sign, glued⟩) atom sign' behind

theorem between (h : Row xs) (sign : s ∈ signs) (h' : Row ys) : Row (xs ++ .between s :: ys) := by
  induction h with
  | last glued atom =>
    rw [List.append_assoc, List.singleton_append]
    exact .next glued atom sign h'
  | next glued atom sign' behind ih =>
    rw [List.append_assoc, List.cons_append, List.cons_append]
    exact .next glued atom sign' ih

end Row

theorem row_within {e : Expr} (he : Ordinary e) (h : Row e.pieces) (least : Nat) :
    Row (e.within least) := by
  rcases e.within_cases least with ⟨-, hwithin⟩ | ⟨-, hwithin⟩
  · rw [hwithin]
    exact .single (.enclosed he)
  · rw [hwithin]
    exact h

theorem Ordinary.row {e : Expr} (he : Ordinary e) : Row e.pieces := by
  induction he with
  | var valid => exact .single (.var valid)
  | number nonneg => exact .single (.number nonneg)
  | between sign left right iha ihb =>
    obtain ⟨p, hp⟩ := exists_precedence sign
    rw [pieces_between hp]
    exact (row_within left iha _).between sign (row_within right ihb _)
  | before sign operand ih =>
    rw [pieces_before (isSome_precedence?_iff.2 sign)]
    exact (row_within operand ih _).before sign
  | call valid arguments =>
    rw [pieces_call (precedence?_eq_none_of_isName valid)]
    exact .single (.call valid arguments)

theorem head_of_glued {ss : List String} {x : Piece} (glued : ∀ s ∈ ss, s ∈ signs) (hx : Atom x)
    (xs : List Piece) :
    ∃ c cs, (ss.map Piece.before ++ x :: xs).flatMap Piece.chars = c :: cs ∧ c ≠ ')' := by
  cases ss with
  | nil =>
    obtain ⟨c, cs, hchars, hc⟩ := hx.head
    exact ⟨c, cs ++ xs.flatMap Piece.chars, by simp [hchars], List.ne_of_not_mem_cons hc⟩
  | cons s ss =>
    have hs := glued s List.mem_cons_self
    obtain ⟨c, cs, hsign⟩ := List.exists_cons_of_ne_nil (toList_ne_nil_of_mem_signs hs)
    refine ⟨c, cs ++ (ss.map Piece.before ++ x :: xs).flatMap Piece.chars,
      by simp [Piece.chars, hsign], ?_⟩
    rintro rfl
    exact absurd (mem_marks hs ')' (by simp [hsign])) (by decide)

theorem Row.head {xs : List Piece} (h : Row xs) :
    ∃ c cs, xs.flatMap Piece.chars = c :: cs ∧ c ≠ ')' := by
  cases h with
  | last glued atom => exact head_of_glued glued atom []
  | next glued atom => exact head_of_glued glued atom _

theorem Ordinary.head {e : Expr} (he : Ordinary e) : ∃ c cs, e.text.toList = c :: cs ∧ c ≠ ')' := by
  rw [toList_text]
  exact he.row.head

/-! ### Where a piece ends -/

theorem listed_append_injective {es es' : List Expr} {rest rest' : List Char}
    (ordinary : ∀ e ∈ es, Ordinary e) (known : ∀ e ∈ es, Known e)
    (ordinary' : ∀ e ∈ es', Ordinary e) (h : listed es ++ rest = listed es' ++ rest') :
    es = es' ∧ rest = rest' := by
  cases es with
  | nil =>
    cases es' with
    | nil => exact ⟨rfl, (List.cons.inj h).2⟩
    | cons e' es' =>
      obtain ⟨c, cs, htext, hc⟩ := (ordinary' e' List.mem_cons_self).head
      rw [listed, listed, htext] at h
      exact absurd (List.cons.inj h).1.symm hc
  | cons e es =>
    cases es' with
    | nil =>
      obtain ⟨c, cs, htext, hc⟩ := (ordinary e List.mem_cons_self).head
      rw [listed, listed, htext] at h
      exact absurd (List.cons.inj h).1 hc
    | cons e' es' =>
      exact further_append_injective known ordinary' (congrArg (',' :: ' ' :: ·) h)

/-- Where an atom ends is seen from the characters. -/
theorem Atom.append_injective {x x' : Piece} (hx : Atom x) (hx' : Atom x') (settled : x.Settled)
    {rest rest' : List Char} (hrest : Stop rest) (hrest' : Stop rest')
    (h : x.chars ++ rest = x'.chars ++ rest') : x = x' ∧ rest = rest' := by
  rw [hx.chars_eq, hx'.chars_eq, List.append_assoc, List.append_assoc] at h
  obtain ⟨hword, h⟩ := span_append_injective hx.continuesName hx'.continuesName
    (not_continuesName_inside x hrest) (not_continuesName_inside x' hrest') h
  -- behind the word a parenthesis opens for both atoms or for neither
  have hparenthesis : ∀ {r : List Char}, ¬Stop ('(' :: r) :=
    fun hstop => absurd (hstop '(' rfl) (by decide)
  cases hinside : x.inside? with
  | none =>
    cases hinside' : x'.inside? with
    | none =>
      simp only [hinside, hinside', Option.elim_none, List.nil_append] at h
      exact ⟨hx.eq_of_word_of_inside hx' hword (hinside.trans hinside'.symm), h⟩
    | some cs' =>
      simp only [hinside, hinside', Option.elim_none, Option.elim_some, List.nil_append] at h
      exact absurd (h ▸ hrest) hparenthesis
  | some cs =>
    cases hinside' : x'.inside? with
    | none =>
      simp only [hinside, hinside', Option.elim_none, Option.elim_some, List.nil_append] at h
      exact absurd (h ▸ hrest') hparenthesis
    | some cs' =>
      simp only [hinside, hinside', Option.elim_some, List.cons_append, List.cons.injEq,
        true_and] at h
      obtain ⟨rfl, hrests⟩ := listed_append_injective (hx.ordinary_of_inside hinside)
        (settled cs hinside) (hx'.ordinary_of_inside hinside') h
      exact ⟨hx.eq_of_word_of_inside hx' hword (hinside.trans hinside'.symm), hrests⟩

/-- The signs that stand before an atom are told apart, and the atom is. -/
theorem glued_append_injective {ss ss' : List String} {x x' : Piece} (glued : ∀ s ∈ ss, s ∈ signs)
    (glued' : ∀ s ∈ ss', s ∈ signs) (hx : Atom x) (hx' : Atom x') (settled : x.Settled)
    {rest rest' : List Char} (hrest : Stop rest) (hrest' : Stop rest')
    (h : ss.flatMap String.toList ++ (x.chars ++ rest) =
      ss'.flatMap String.toList ++ (x'.chars ++ rest')) : ss = ss' ∧ x = x' ∧ rest = rest' := by
  have hmarks : ∀ {ss : List String}, (∀ s ∈ ss, s ∈ signs) →
      ∀ c ∈ ss.flatMap String.toList, c ∈ marks := by
    intro ss hss c hc
    obtain ⟨s, hs, hc⟩ := List.mem_flatMap.1 hc
    exact mem_marks (hss s hs) c hc
  have hnotMark : ∀ {x : Piece}, Atom x → ∀ {r}, ∀ c ∈ (x.chars ++ r).head?, c ∉ marks := by
    intro x hx r c hc
    obtain ⟨d, ds, hchars, hd⟩ := hx.head
    simp only [hchars, List.cons_append, List.head?_cons, Option.mem_some_iff] at hc
    exact fun hmem => hd (List.mem_cons_of_mem _ (hc ▸ hmem))
  obtain ⟨hsigns, h⟩ := span_append_injective (hmarks glued) (hmarks glued') (hnotMark hx)
    (hnotMark hx') h
  exact ⟨signs_injective glued glued' hsigns, hx.append_injective hx' settled hrest hrest' h⟩

/-- A row is known from its characters. -/
theorem Row.append_injective {xs ys : List Piece} (hxs : Row xs) (hys : Row ys)
    (settled : ∀ x ∈ xs, x.Settled) {rest rest' : List Char} (hrest : Closing rest)
    (hrest' : Closing rest')
    (h : xs.flatMap Piece.chars ++ rest = ys.flatMap Piece.chars ++ rest') :
    xs = ys ∧ rest = rest' := by
  -- a space behind an atom says that the row goes on
  have hspace : ∀ {r : List Char}, ¬Closing (' ' :: r) :=
    fun hclosing => absurd (hclosing ' ' rfl) (by decide)
  have hstop : ∀ {r : List Char}, Stop (' ' :: r) := by simp [Stop]
  induction hxs generalizing ys with
  | @last ss x glued atom =>
    have hx := settled x (by simp)
    cases hys with
    | @last ss' x' glued' atom' =>
      simp only [List.flatMap_append, List.flatMap_map, Piece.chars, List.flatMap_singleton,
        List.append_assoc] at h
      obtain ⟨rfl, rfl, hrests⟩ :=
        glued_append_injective glued glued' atom atom' hx hrest.stop hrest'.stop h
      exact ⟨rfl, hrests⟩
    | @next ss' x' s' ys glued' atom' =>
      simp only [List.flatMap_append, List.flatMap_map, List.flatMap_cons, Piece.chars,
        List.append_assoc, List.cons_append] at h
      obtain ⟨-, -, hrests⟩ := glued_append_injective glued glued' atom atom' hx hrest.stop hstop h
      exact absurd (hrests ▸ hrest) hspace
  | @next ss x s xs glued atom sign behind ih =>
    have hx := settled x (by simp)
    cases hys with
    | @last ss' x' glued' atom' =>
      simp only [List.flatMap_append, List.flatMap_map, List.flatMap_cons, Piece.chars,
        List.append_assoc, List.cons_append] at h
      obtain ⟨-, -, hrests⟩ := glued_append_injective glued glued' atom atom' hx hstop hrest'.stop h
      exact absurd (hrests ▸ hrest') hspace
    | @next ss' x' s' ys glued' atom' sign' behind' =>
      simp only [List.flatMap_append, List.flatMap_map, List.flatMap_cons, Piece.chars,
        List.append_assoc, List.cons_append, List.nil_append] at h
      obtain ⟨rfl, rfl, hrests⟩ := glued_append_injective glued glued' atom atom' hx hstop hstop h
      obtain ⟨hsign, hbehind⟩ := span_append_injective (mem_marks sign) (mem_marks sign')
        (by simp; decide) (by simp; decide) (List.cons.inj hrests).2
      obtain rfl := String.toList_inj.1 hsign
      obtain ⟨rfl, hends⟩ :=
        ih behind' (fun z hz => settled z (by simp [hz])) (List.cons.inj hbehind).2
      exact ⟨rfl, hends⟩

/-! ### Texts -/

theorem Ordinary.known_of_settled {e : Expr} (he : Ordinary e) (h : ∀ x ∈ e.pieces, x.Settled) :
    Known e := by
  intro e' he' rest rest' hrest hrest' htext
  rw [toList_text, toList_text] at htext
  obtain ⟨hpieces, hrests⟩ := he.row.append_injective he'.row h hrest hrest' htext
  exact ⟨pieces_injective he he' hpieces, hrests⟩

theorem settled_within {e : Expr} (he : Ordinary e) (h : ∀ x ∈ e.pieces, x.Settled) (least : Nat) :
    ∀ x ∈ e.within least, x.Settled := by
  rcases e.within_cases least with ⟨-, hwithin⟩ | ⟨-, hwithin⟩
  · rw [hwithin]
    simpa [Piece.Settled, Piece.inside?] using he.known_of_settled h
  · rw [hwithin]
    exact h

theorem Ordinary.settled {e : Expr} (he : Ordinary e) : ∀ x ∈ e.pieces, x.Settled := by
  induction he with
  | var | number => simp [pieces, Piece.Settled, Piece.inside?]
  | between sign left right iha ihb =>
    obtain ⟨p, hp⟩ := exists_precedence sign
    rw [pieces_between hp, List.forall_mem_append, List.forall_mem_cons]
    exact ⟨settled_within left iha _, by simp [Piece.Settled, Piece.inside?],
      settled_within right ihb _⟩
  | before sign operand ih =>
    rw [pieces_before (isSome_precedence?_iff.2 sign), List.forall_mem_cons]
    exact ⟨by simp [Piece.Settled, Piece.inside?], settled_within operand ih _⟩
  | call valid arguments ih =>
    rw [pieces_call (precedence?_eq_none_of_isName valid)]
    simpa [Piece.Settled, Piece.inside?] using
      fun c hc => (arguments c hc).known_of_settled (ih c hc)

theorem Ordinary.known {e : Expr} (he : Ordinary e) : Known e :=
  he.known_of_settled he.settled

theorem textPrecedence_bare (e : Expr) : e.bare.textPrecedence = e.textPrecedence := by
  cases e with
  | group | var | const => rfl
  | op slot name cs r =>
    rw [bare, bareAll_eq_map]
    rcases cs with _ | ⟨a, _ | ⟨b, _ | ⟨c, cs⟩⟩⟩ <;> rfl

theorem texts_map_bare {es : List Expr} (h : ∀ e ∈ es, e.bare.text = e.text) :
    texts (es.map bare) = texts es := by
  induction es with
  | nil => rfl
  | cons e es ih =>
    rw [List.forall_mem_cons] at h
    simp [texts, h.1, ih h.2]

/-- The text of an expression does not show its types. -/
theorem text_bare (e : Expr) : e.bare.text = e.text := by
  induction e with
  | var | const => rfl
  | group slot cs ih => simp [bare, text, bareAll_eq_map, texts_map_bare ih]
  | op slot name cs r ih =>
    have htexts := texts_map_bare ih
    rw [bare, bareAll_eq_map]
    rcases cs with _ | ⟨a, _ | ⟨b, _ | ⟨c, cs⟩⟩⟩
    · rfl
    · have ha := ih a (by simp)
      cases h : precedence? name <;> simp [text, texts, operandText, textPrecedence_bare, h, ha]
    · have ha := ih a (by simp)
      have hb := ih b (by simp)
      cases h : precedence? name <;>
        simp [text, texts, operandText, textPrecedence_bare, h, ha, hb]
    · rw [List.map_cons, List.map_cons, List.map_cons] at htexts ⊢
      simp only [text, htexts]
      cases precedence? name <;> rfl

/-- Few parentheses are enough: the texts of two ordinary expressions agree if and only if the
expressions do, types apart. -/
theorem text_eq_iff {e e' : Expr} (he : Ordinary e.bare) (he' : Ordinary e'.bare) :
    e.text = e'.text ↔ e.bare = e'.bare := by
  constructor
  · intro h
    have hchars : e.bare.text.toList ++ [] = e'.bare.text.toList ++ [] := by
      rw [text_bare, text_bare, h]
    exact (he.known e'.bare he' (by simp [Closing]) (by simp [Closing]) hchars).1
  · intro h
    rw [← text_bare e, h, text_bare]

/-- The square of `x`, whose type is known, with a sign before it: `-x ^ 2`. -/
def minusSquare : Expr :=
  op .pending "-" [op (.resolved { name := "int" }) "^"
    [var .pending "x", const .pending (.int 2) "int" none] none] none

/-- The square of what `x` becomes with a sign before it: `(-x) ^ 2`. -/
def squareOfMinus : Expr :=
  op .pending "^" [op .pending "-" [var .pending "x"] none,
    const .pending (.int 2) "int" none] none

theorem minusSquare_text_ne : Ordinary minusSquare.bare ∧ Ordinary squareOfMinus.bare ∧
    minusSquare.text ≠ squareOfMinus.text := by
  have hx : Ordinary (var .pending "x") := .var (by decide +kernel)
  have htwo : Ordinary (const .pending (.int 2) "int" none) := .number (by decide)
  have hminusSquare : Ordinary minusSquare.bare :=
    .before (by decide) (.between (by decide) hx htwo)
  have hsquareOfMinus : Ordinary squareOfMinus.bare :=
    .between (by decide) (.before (by decide) hx) htwo
  refine ⟨hminusSquare, hsquareOfMinus, fun h => ?_⟩
  have hbare := (text_eq_iff hminusSquare hsquareOfMinus).1 h
  simp [minusSquare, squareOfMinus, bare, bareAll] at hbare

end Expr

end Formula
