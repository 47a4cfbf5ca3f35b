import Formula.Proofs.Expr.Unambiguous
/-!
Which sign of a text is outermost, if integers may be negative. The signs between operands are seen
from the spaces outside parentheses, and decide between all outermost signs but two: a minus before
an operand may as well belong to the number behind it. Numbers are never put in parentheses, so that
a negative number to some power has the text of a minus before the power of its opposite.
-/

namespace Formula

open Text

namespace Expr

/-- An expression of variables, integers of any sign and signs before or between operands. -/
inductive Signed : Expr → Prop
  | var {slot name} (valid : isName name = true) : Signed (.var slot name)
  | number {slot typeName} (n : Int64) : Signed (.const slot (.int n) typeName none)
  | between {slot name a b r} (sign : name ∈ signs) (left : Signed a) (right : Signed b) :
      Signed (.op slot name [a, b] r)
  | before {slot name a r} (sign : name ∈ signs) (operand : Signed a) :
      Signed (.op slot name [a] r)

/-! ### Outside parentheses -/

/-- The characters outside parentheses, when `depth` of these are open. -/
def outside : Nat → List Char → List Char
  | _, [] => []
  | depth, '(' :: cs => outside (depth + 1) cs
  | depth, ')' :: cs => outside (depth - 1) cs
  | 0, c :: cs => c :: outside 0 cs
  | depth + 1, _ :: cs => outside (depth + 1) cs

/-- A text closes the parentheses that it opens, and no others. -/
def Balanced (text : List Char) : Prop :=
  ∀ rest, outside 0 (text ++ rest) = outside 0 text ++ outside 0 rest ∧
    ∀ depth, outside (depth + 1) (text ++ rest) = outside (depth + 1) rest

theorem Balanced.append {s t : List Char} (hs : Balanced s) (ht : Balanced t) :
    Balanced (s ++ t) := by
  intro rest
  constructor
  · rw [List.append_assoc, (hs _).1, (ht rest).1, (hs t).1, List.append_assoc]
  · intro depth
    rw [List.append_assoc, (hs _).2, (ht rest).2]

theorem Balanced.outside_enclosed {t : List Char} (ht : Balanced t) (depth : Nat)
    (rest : List Char) : outside depth ('(' :: t ++ ')' :: rest) = outside depth rest := by
  rw [List.cons_append, outside, (ht _).2, outside, Nat.add_sub_cancel]

theorem Balanced.enclosed {t : List Char} (ht : Balanced t) : Balanced ('(' :: t ++ [')']) := by
  intro rest
  rw [List.append_assoc, List.singleton_append, ht.outside_enclosed, ht.outside_enclosed]
  exact ⟨rfl, fun depth => ht.outside_enclosed (depth + 1) rest⟩

/-- A text without parentheses. -/
def Open (text : List Char) : Prop :=
  ∀ c ∈ text, c ≠ '(' ∧ c ≠ ')'

theorem Open.outside_append {t : List Char} (ht : Open t) (rest : List Char) :
    outside 0 (t ++ rest) = t ++ outside 0 rest ∧
      ∀ depth, outside (depth + 1) (t ++ rest) = outside (depth + 1) rest := by
  induction t with
  | nil => simp
  | cons c t ih =>
    obtain ⟨⟨hopen, hclose⟩, ht⟩ := List.forall_mem_cons.1 ht
    obtain ⟨hzero, hsucc⟩ := ih ht
    simp [outside, hzero, hsucc]

theorem Open.outside_eq {t : List Char} (ht : Open t) : outside 0 t = t := by
  have h := (ht.outside_append []).1
  simpa [outside] using h

theorem Open.balanced {t : List Char} (ht : Open t) : Balanced t := by
  intro rest
  rw [ht.outside_eq]
  exact ht.outside_append rest

/-! ### Signs between spaces -/

/-- A text is divided by spaces around some signs. -/
inductive Divided : List Char → List String → Prop
  | last {w} (whole : ' ' ∉ w) : Divided w []
  | next {w s cs ss} (whole : ' ' ∉ w) (sign : s ∈ signs) (behind : Divided cs ss) :
      Divided (w ++ ' ' :: s.toList ++ ' ' :: cs) (s :: ss)

theorem not_mem_toList_of_mem_signs {s : String} (h : s ∈ signs) : ' ' ∉ s.toList :=
  fun hc => absurd (mem_marks h ' ' hc) (by decide)

namespace Divided

variable {cs cs' : List Char} {ss ss' : List String} {s : String}

theorem glue {w : List Char} (whole : ' ' ∉ w) (h : Divided cs ss) : Divided (w ++ cs) ss := by
  cases h with
  | last whole' => exact .last (by simp [whole, whole'])
  | next whole' sign behind =>
    rw [List.append_assoc, ← List.append_assoc w, ← List.append_assoc]
    exact .next (by simp [whole, whole']) sign behind

theorem between (h : Divided cs ss) (sign : s ∈ signs) (h' : Divided cs' ss') :
    Divided (cs ++ ' ' :: s.toList ++ ' ' :: cs') (ss ++ s :: ss') := by
  induction h with
  | last whole => exact .next whole sign h'
  | next whole sign' behind ih =>
    have hnext := next whole sign' ih
    simpa using hnext

/-- The signs by which a text is divided are known. -/
theorem unique (h : Divided cs ss) (h' : Divided cs ss') : ss = ss' := by
  have hword : ∀ {w : List Char}, ' ' ∉ w → ∀ c ∈ w, c ≠ ' ' :=
    fun hw c hc heq => hw (heq ▸ hc)
  have hspace : ∀ {r : List Char}, ∀ c ∈ (' ' :: r).head?, ¬c ≠ ' ' := by simp
  induction h generalizing ss' with
  | last whole =>
    cases h' with
    | last => rfl
    | next => simp at whole
  | @next w s cs ss whole sign behind ih =>
    generalize hcs : w ++ ' ' :: s.toList ++ ' ' :: cs = ds at h'
    cases h' with
    | last whole' =>
      rw [← hcs] at whole'
      simp at whole'
    | @next w' s' cs' ss' whole' sign' behind' =>
      simp only [List.append_assoc, List.cons_append] at hcs
      obtain ⟨-, hcs⟩ := span_append_injective (hword whole) (hword whole') hspace hspace hcs
      obtain ⟨hsign, hcs⟩ := span_append_injective (hword (not_mem_toList_of_mem_signs sign))
        (hword (not_mem_toList_of_mem_signs sign')) hspace hspace (List.cons.inj hcs).2
      rw [String.toList_inj.1 hsign, ih ((List.cons.inj hcs).2 ▸ behind')]

end Divided

/-- A text shows some signs: they are those between spaces outside its parentheses. -/
structure Shows (text : List Char) (ss : List String) : Prop where
  balanced : Balanced text
  divided : Divided (outside 0 text) ss

namespace Shows

variable {t t' : List Char} {ss ss' : List String} {s : String}

theorem word (plain : ∀ c ∈ t, c ∉ ['(', ')', ' ']) : Shows t [] := by
  have hopen : Open t := fun c hc => by
    have hc := plain c hc
    simp at hc
    tauto
  refine ⟨hopen.balanced, ?_⟩
  rw [hopen.outside_eq]
  exact .last fun hc => plain ' ' hc (by simp)

theorem enclosed (h : Shows t ss) : Shows ('(' :: t ++ [')']) [] := by
  refine ⟨h.balanced.enclosed, ?_⟩
  rw [h.balanced.outside_enclosed]
  exact .last (by simp [outside])

theorem open_of_mem_signs (h : s ∈ signs) : Open s.toList := by
  intro c hc
  have hmarks := mem_marks h c hc
  constructor <;> rintro rfl <;> exact absurd hmarks (by decide)

theorem before (sign : s ∈ signs) (h : Shows t ss) : Shows (s.toList ++ t) ss := by
  have hs := open_of_mem_signs sign
  refine ⟨hs.balanced.append h.balanced, ?_⟩
  rw [(hs.balanced t).1, hs.outside_eq]
  exact h.divided.glue (not_mem_toList_of_mem_signs sign)

theorem between (h : Shows t ss) (sign : s ∈ signs) (h' : Shows t' ss') :
    Shows (t ++ (' ' :: s.toList ++ [' ']) ++ t') (ss ++ s :: ss') := by
  have hs : Open (' ' :: s.toList ++ [' ']) := by
    intro c hc
    simp only [List.cons_append, List.mem_cons, List.mem_append, List.not_mem_nil, or_false] at hc
    rcases hc with rfl | hc | rfl
    · decide
    · exact open_of_mem_signs sign c hc
    · decide
  refine ⟨(h.balanced.append hs.balanced).append h'.balanced, ?_⟩
  rw [((h.balanced.append hs.balanced) t').1, (h.balanced _).1, hs.outside_eq]
  have hdivided := h.divided.between sign h'.divided
  simpa using hdivided

end Shows

/-! ### The signs of an expression -/

/-- The sign between operands that a piece is, if it is one. -/
def Piece.sign? : Piece → Option String
  | between s => some s
  | _ => none

/-- The signs between operands among some pieces. -/
def signsBetween (xs : List Piece) : List String :=
  xs.filterMap Piece.sign?

theorem mem_signsBetween {xs : List Piece} {s : String} :
    s ∈ signsBetween xs ↔ .between s ∈ xs := by
  unfold signsBetween
  rw [List.mem_filterMap]
  constructor
  · rintro ⟨x, hx, hs⟩
    cases x with
    | between t =>
      obtain rfl : t = s := Option.some.inj hs
      exact hx
    | leaf | enclosed | before => cases hs
  · intro h
    exact ⟨_, h, rfl⟩

variable {slot slot' : TypeSlot} {name name' : String} {a b a' b' e e' : Expr}
  {r r' : Option Resolution} {p p' : Nat}

theorem signsBetween_between (hp : precedence? name = some p) :
    signsBetween (op slot name [a, b] r).pieces =
      signsBetween (a.within (operandPrecedences name p).1) ++
        name :: signsBetween (b.within (operandPrecedences name p).2) := by
  simp [pieces_between hp, signsBetween, Piece.sign?]

theorem toList_parenthesized (t : String) :
    (parenthesized t).toList = '(' :: (t.toList ++ [')']) := by
  simp [parenthesized]

theorem toList_text_number (slot : TypeSlot) (n : Int64) (typeName : String) :
    (Expr.const slot (.int n) typeName none).text.toList =
      (if n.toInt < 0 then ['-'] else []) ++ Nat.toDigits 10 n.toInt.natAbs :=
  Json.toList_toString n.toInt

theorem plain_name (valid : isName name = true) : ∀ c ∈ name.toList, c ∉ ['(', ')', ' '] := by
  intro c hc hplain
  obtain ⟨-, -, -, -, hall⟩ := exists_cons_of_isName valid
  have hcontinues := hall c hc
  rw [continuesName_eq_false (by simp at hplain ⊢; tauto)] at hcontinues
  cases hcontinues

theorem plain_number (slot : TypeSlot) (n : Int64) (typeName : String) :
    ∀ c ∈ (Expr.const slot (.int n) typeName none).text.toList, c ∉ ['(', ')', ' '] := by
  intro c hc hplain
  rw [toList_text_number, List.mem_append] at hc
  have hchar : c = '-' ∨ c.isDigit = true := by
    rcases hc with hc | hc
    · split at hc <;> simp_all
    · exact .inr (Json.isDigit_of_mem_toDigits hc)
  simp only [List.mem_cons, List.not_mem_nil, or_false] at hplain
  rcases hplain with rfl | rfl | rfl <;> exact absurd hchar (by decide)

theorem shows_operandText (h : Shows e.text.toList (signsBetween e.pieces)) (least : Nat) :
    Shows (operandText least e e.text).toList (signsBetween (e.within least)) := by
  unfold operandText within operandPieces
  split
  · rw [toList_parenthesized]
    exact h.enclosed
  · exact h

/-- The text of an expression shows the signs between its operands. -/
theorem Signed.shows (he : Signed e) : Shows e.text.toList (signsBetween e.pieces) := by
  induction he with
  | var valid => exact .word (plain_name valid)
  | number n => exact .word (plain_number _ n _)
  | @between slot name a b r sign left right iha ihb =>
    obtain ⟨p, hp⟩ := exists_precedence sign
    rw [text_between hp, signsBetween_between hp]
    have hbetween := (shows_operandText iha (operandPrecedences name p).1).between sign
      (shows_operandText ihb (operandPrecedences name p).2)
    simpa using hbetween
  | @before slot name a r sign operand ih =>
    have hname := isSome_precedence?_iff.2 sign
    rw [text_before hname, pieces_before hname, String.toList_append]
    exact (shows_operandText ih signPrecedence).before sign

/-- Expressions of one text have the same signs between operands. -/
theorem signsBetween_eq (he : Signed e) (he' : Signed e') (h : e.text = e'.text) :
    signsBetween e.pieces = signsBetween e'.pieces := by
  have hshows := he.shows
  rw [h] at hshows
  exact hshows.divided.unique he'.shows.divided

/-! ### Outermost signs -/

theorem not_bound_of_mem_within {c : Expr} {s : String}
    (h : s ∈ signsBetween (c.within (p + 1))) : ¬precedence? s = some p := by
  intro hs
  obtain ⟨q, hq, hle⟩ := least_le (mem_signsBetween.1 h)
  cases hs.symm.trans hq
  omega

theorem precedence_le_of_signsBetween_eq (hp : precedence? name = some p)
    (hp' : precedence? name' = some p')
    (h : signsBetween (op slot name [a, b] r).pieces =
      signsBetween (op slot' name' [a', b'] r').pieces) : p' ≤ p := by
  have hmem : name ∈ signsBetween (op slot name [a, b] r).pieces := by
    rw [signsBetween_between hp]
    simp
  obtain ⟨q, hq, hle⟩ := textPrecedence_le (mem_signsBetween.1 (h ▸ hmem))
  rw [textPrecedence_between hp'] at hle
  exact Option.some.inj (hq.symm.trans hp) ▸ hle

/-- Of the signs between operands the outermost is the last of those that bind least, or the power,
which no other binds as much as. -/
theorem outermost_eq (hp : precedence? name = some p) (hp' : precedence? name' = some p')
    (h : signsBetween (op slot name [a, b] r).pieces =
      signsBetween (op slot' name' [a', b'] r').pieces) : name = name' := by
  obtain rfl := Nat.le_antisymm (precedence_le_of_signsBetween_eq hp' hp h.symm)
    (precedence_le_of_signsBetween_eq hp hp' h)
  rcases precedence?_le hp with hsmall | ⟨rfl, rfl⟩
  · have hprecedences : ∀ {s}, precedence? s = some p → operandPrecedences s p = (p, p + 1) := by
      intro s hs
      refine if_neg ?_
      rintro rfl
      cases hs
      omega
    rw [signsBetween_between hp, signsBetween_between hp', hprecedences hp, hprecedences hp'] at h
    exact (append_cons_inj_of_last (M := fun s => precedence? s = some p) hp hp'
      (fun _ => not_bound_of_mem_within) (fun _ => not_bound_of_mem_within) h).2.1
  · rcases precedence?_le hp' with hsmall | ⟨hname', -⟩
    · omega
    · exact hname'.symm

/-- No sign between operands but the power binds more than a sign before its operand. -/
theorem eq_power_of_before (hp : precedence? name = some p) (hname' : (precedence? name').isSome)
    (h : signsBetween (op slot name [a, b] r).pieces =
      signsBetween (op slot' name' [a'] r').pieces) : name = "^" := by
  have hmem : name ∈ signsBetween (op slot name [a, b] r).pieces := by
    rw [signsBetween_between hp]
    simp
  obtain ⟨q, hq, hle⟩ := textPrecedence_le (mem_signsBetween.1 (h ▸ hmem))
  rw [textPrecedence_before hname', signPrecedence] at hle
  rcases precedence?_le hq with hsmall | ⟨hname, -⟩
  · omega
  · exact hname

/-! ### Negative numbers -/

theorem text_power : (op slot "^" [a, b] r).text =
    operandText 8 a a.text ++ " ^ " ++ operandText 7 b b.text := by
  rw [text_between rfl]
  simp [String.append_assoc, operandPrecedences]

/-- A mark neither begins a name nor is a digit. -/
theorem name_of_mem_marks {c : Char} (h : c ∈ marks) : startsName c = false ∧ ¬c.isDigit = true := by
  have hcontinues : ¬continuesName c = true := by
    rw [continuesName_eq_false (List.mem_append_right ['(', ')', ',', ' '] h)]
    decide
  rw [← Bool.not_eq_true]
  exact ⟨mt continuesName_of_startsName hcontinues, fun hc => hcontinues (name_of_isDigit hc).1⟩

/-- The base of a power begins as a name does, or with a parenthesis, or is a number. -/
theorem Signed.base_cases (ha : Signed a) :
    (∃ c cs, (operandText 8 a a.text).toList = c :: cs ∧ (startsName c = true ∨ c = '(')) ∨
    ∃ slot n typeName, a = .const slot (.int n) typeName none ∧ operandText 8 a a.text = a.text := by
  have henclosed : operandText 8 a a.text = parenthesized a.text →
      ∃ c cs, (operandText 8 a a.text).toList = c :: cs ∧ (startsName c = true ∨ c = '(') :=
    fun h => ⟨'(', _, h ▸ toList_parenthesized _, .inr rfl⟩
  cases ha with
  | @var slot name valid =>
    obtain ⟨c, cs, hname, hstarts, -⟩ := exists_cons_of_isName valid
    exact .inl ⟨c, cs, hname, .inl hstarts⟩
  | @number slot typeName n => exact .inr ⟨slot, n, typeName, rfl, rfl⟩
  | between sign =>
    obtain ⟨p, hp⟩ := exists_precedence sign
    have hle := precedence?_le hp
    refine .inl (henclosed (if_pos ?_))
    rw [textPrecedence_between hp]
    omega
  | before sign =>
    refine .inl (henclosed (if_pos ?_))
    rw [textPrecedence_before (isSome_precedence?_iff.2 sign)]
    decide

theorem exists_digit (n : Nat) : ∃ d ds, Nat.toDigits 10 n = d :: ds ∧ d.isDigit = true := by
  obtain ⟨d, ds, hdigits⟩ := List.exists_cons_of_ne_nil (@Nat.toDigits_ne_nil n 10)
  have hmem : d ∈ Nat.toDigits 10 n := by simp [hdigits]
  exact ⟨d, ds, hdigits, Json.isDigit_of_mem_toDigits hmem⟩

/-- A base that begins as neither a name nor a parenthesis does is a number, and its first character
shows whether it is negative. -/
theorem Signed.number_of_head (ha : Signed a) {c : Char} {cs rest : List Char}
    (hstarts : startsName c = false) (hopen : c ≠ '(')
    (h : (operandText 8 a a.text).toList ++ rest = c :: cs) :
    ∃ slot n typeName, a = .const slot (.int n) typeName none ∧ operandText 8 a a.text = a.text ∧
      (n.toInt < 0 ∧ c = '-' ∨ 0 ≤ n.toInt ∧ c.isDigit = true) := by
  rcases ha.base_cases with ⟨d, ds, htext, hd⟩ | ⟨slot, n, typeName, rfl, htext⟩
  · rw [htext, List.cons_append, List.cons.injEq] at h
    rw [h.1] at hd
    rcases hd with hd | hd
    · rw [hd] at hstarts
      cases hstarts
    · exact absurd hd hopen
  · refine ⟨slot, n, typeName, rfl, htext, ?_⟩
    rw [htext, toList_text_number] at h
    by_cases hn : n.toInt < 0
    · rw [if_pos hn] at h
      exact .inl ⟨hn, (List.cons.inj h).1.symm⟩
    · obtain ⟨d, ds, hdigits, hdigit⟩ := exists_digit n.toInt.natAbs
      rw [if_neg hn, List.nil_append, hdigits, List.cons_append, List.cons.injEq] at h
      exact .inr ⟨by omega, h.1 ▸ hdigit⟩

theorem eq_minus_of_head {s : String} {cs : List Char} (h : s ∈ signs)
    (hs : s.toList = '-' :: cs) : s = "-" := by
  have hall : ∀ s ∈ signs, s.toList.head? = some '-' → s = "-" := by decide
  exact hall s h (by rw [hs]; rfl)

/-- A power that has the text of an expression with a sign before it has a negative number as its
base, and the sign is a minus. -/
theorem base_of_before (ha : Signed a) (sign : name ∈ signs)
    (h : (op slot "^" [a, b] r).text = (op slot' name [a'] r').text) :
    name = "-" ∧ ∃ slot n typeName, a = .const slot (.int n) typeName none ∧ n.toInt < 0 ∧
      Nat.toDigits 10 n.toInt.natAbs ++ ' ' :: '^' :: ' ' :: (operandText 7 b b.text).toList =
        (operandText signPrecedence a' a'.text).toList := by
  have hchars := congrArg String.toList h
  rw [text_power, text_before (isSome_precedence?_iff.2 sign)] at hchars
  simp only [String.toList_append, List.append_assoc] at hchars
  obtain ⟨c, cs, hname⟩ := List.exists_cons_of_ne_nil (toList_ne_nil_of_mem_signs sign)
  have hmark : c ∈ marks := mem_marks sign c (by simp [hname])
  rw [hname, List.cons_append] at hchars
  obtain ⟨hstarts, hdigit⟩ := name_of_mem_marks hmark
  have hopen : c ≠ '(' := by
    rintro rfl
    exact absurd hmark (by decide)
  obtain ⟨slot, n, typeName, rfl, htext, ⟨hn, rfl⟩ | ⟨-, hc⟩⟩ :=
    ha.number_of_head hstarts hopen hchars
  swap
  · exact absurd hc hdigit
  obtain rfl := eq_minus_of_head sign hname
  refine ⟨rfl, slot, n, typeName, rfl, hn, ?_⟩
  rw [htext, toList_text_number, if_pos hn] at hchars
  obtain rfl : cs = [] := (List.cons.inj hname).2.symm
  exact (List.cons.inj hchars).2

/-- A base that begins with the digits of a number, and has no digit behind them, is the number. -/
theorem Signed.number_of_digits (ha : Signed a) {n : Nat} {cs rest : List Char}
    (hrest : ∀ c ∈ rest.head?, ¬c.isDigit = true)
    (h : (operandText 8 a a.text).toList ++ rest = Nat.toDigits 10 n ++ ' ' :: cs) :
    ∃ m : Int64, m.toInt = n := by
  obtain ⟨d, ds, hdigits, hd⟩ := exists_digit n
  obtain ⟨-, hstarts⟩ := name_of_isDigit hd
  have hopen : d ≠ '(' := by
    rintro rfl
    cases hd
  obtain ⟨slot, m, typeName, rfl, htext, ⟨-, rfl⟩ | ⟨hm, -⟩⟩ :=
    ha.number_of_head hstarts hopen (h.trans (by rw [hdigits]; rfl))
  · cases hd
  · rw [htext, toList_text_number, if_neg (Int.not_lt.2 hm), List.nil_append] at h
    have hdigit : ∀ {k : Nat}, ∀ c ∈ Nat.toDigits 10 k, c.isDigit = true :=
      fun c hc => Json.isDigit_of_mem_toDigits hc
    obtain ⟨heq, -⟩ := span_append_injective hdigit hdigit hrest (by simp) h
    have habs := congrArg Decimal.ofDigits heq
    rw [Json.ofDigits_toDigits, Json.ofDigits_toDigits] at habs
    exact ⟨m, by omega⟩

/-- No sign between operands but the power stands without parentheses behind a sign before them. -/
theorem eq_power_of_unenclosed (sign : name ∈ signs)
    (h : ¬(op slot name [a, b] r).textPrecedence < signPrecedence) : name = "^" := by
  obtain ⟨p, hp⟩ := exists_precedence sign
  rw [textPrecedence_between hp, signPrecedence] at h
  rcases precedence?_le hp with hsmall | ⟨hname, -⟩
  · omega
  · exact hname

/-- What has the text of a number to some power is such a power. -/
theorem number_of_power (ha : Signed a) {n : Nat} {cs : List Char}
    (h : (operandText signPrecedence a a.text).toList = Nat.toDigits 10 n ++ ' ' :: cs) :
    ∃ m : Int64, m.toInt = n := by
  obtain ⟨d, ds, hdigits, hd⟩ := exists_digit n
  have hspace : ' ' ∈ Nat.toDigits 10 n ++ ' ' :: cs := by simp
  unfold operandText at h
  split at h
  · rw [toList_parenthesized, hdigits] at h
    rw [← (List.cons.inj h).1] at hd
    cases hd
  rename_i hprecedence
  cases ha with
  | var valid =>
    rw [← h] at hspace
    exact absurd (by simp) (plain_name valid _ hspace)
  | number n =>
    rw [← h] at hspace
    exact absurd (by simp) (plain_number _ n _ _ hspace)
  | @before slot s x r sign operand =>
    obtain ⟨c, cs', hs⟩ := List.exists_cons_of_ne_nil (toList_ne_nil_of_mem_signs sign)
    rw [text_before (isSome_precedence?_iff.2 sign), String.toList_append, hs, hdigits] at h
    rw [← (List.cons.inj h).1] at hd
    exact absurd hd (name_of_mem_marks (mem_marks sign c (by simp [hs]))).2
  | between sign left right =>
    obtain rfl := eq_power_of_unenclosed sign hprecedence
    rw [text_power, String.toList_append, String.toList_append, List.append_assoc] at h
    exact left.number_of_digits (by simp) h

/-- A negative number has the text of its opposite behind a minus, unless it has no opposite. -/
theorem exists_opposite {n : Int64} (hn : n.toInt < 0) (hmin : n ≠ Int64.minValue)
    (slot : TypeSlot) (typeName : String) : ∃ m : Int64,
      (const slot (.int n) typeName none).text =
        "-" ++ (const .pending (.int m) "int" none).text := by
  have hle := n.le_toInt
  have hne : n.toInt ≠ -2 ^ 63 :=
    fun h => hmin (Int64.toInt_inj.1 (h.trans Int64.toInt_minValue.symm))
  have hopposite : (Int64.ofInt (-n.toInt)).toInt = -n.toInt :=
    Int64.toInt_ofInt_of_le (by omega) (by omega)
  refine ⟨.ofInt (-n.toInt), ?_⟩
  rw [← String.toList_inj, String.toList_append, toList_text_number, toList_text_number, hopposite,
    if_pos hn, if_neg (by omega), Int.natAbs_neg]
  rfl

/-- A sign between operands can be taken for another outermost sign if and only if it is the power
and its base is a negative number that has an opposite. -/
theorem rebinds_iff (sign : name ∈ signs) (left : Signed a) (right : Signed b) :
    (∃ slot' name' cs r', Signed (op slot' name' cs r') ∧ (name' ≠ name ∨ cs.length ≠ 2) ∧
      (op slot' name' cs r').text = (op slot name [a, b] r).text) ↔
    name = "^" ∧ ∃ slot' n typeName, a = const slot' (.int n) typeName none ∧ n.toInt < 0 ∧
      n ≠ Int64.minValue := by
  obtain ⟨p, hp⟩ := exists_precedence sign
  constructor
  · rintro ⟨slot', name', cs, r', hother, hroot, htext⟩
    have hsigned : Signed (op slot name [a, b] r) := .between sign left right
    have hsigns := signsBetween_eq hsigned hother htext.symm
    cases hother with
    | between sign' left' right' =>
      obtain ⟨p', hp'⟩ := exists_precedence sign'
      have hname := outermost_eq hp hp' hsigns
      simp [hname] at hroot
    | before sign' operand =>
      obtain rfl := eq_power_of_before hp (isSome_precedence?_iff.2 sign') hsigns
      obtain ⟨rfl, slot', n, typeName, rfl, hn, hoperand⟩ :=
        base_of_before left sign' htext.symm
      refine ⟨rfl, slot', n, typeName, rfl, hn, ?_⟩
      rintro rfl
      -- the opposite would have to be a number as well
      obtain ⟨m, hm⟩ := number_of_power operand hoperand.symm
      have hlt := m.toInt_lt
      rw [hm] at hlt
      exact absurd hlt (by decide)
  · rintro ⟨rfl, slot', n, typeName, rfl, hn, hmin⟩
    obtain ⟨m, hm⟩ := exists_opposite hn hmin slot' typeName
    have hminus : "-" ∈ signs := by decide
    refine ⟨.pending, "-", [op .pending "^" [const .pending (.int m) "int" none, b] none], none,
      .before hminus (.between sign (.number m) right), .inl (by decide), ?_⟩
    have hbase : ∀ slot n typeName, operandText 8 (const slot (.int n) typeName none)
        (const slot (.int n) typeName none).text = (const slot (.int n) typeName none).text :=
      fun _ _ _ => rfl
    have hpower : ∀ t, operandText signPrecedence
        (op .pending "^" [const .pending (.int m) "int" none, b] none) t = t := fun _ => rfl
    rw [text_before rfl, hpower, text_power, text_power, hbase, hbase, hm]
    simp only [String.append_assoc]

/-- The negative number `-2` to the power of `x`. -/
def minusTwoToX : Expr :=
  op .pending "^" [const .pending (.int (-2)) "int" none, var .pending "x"] none

/-- The difference of `x` and `-2`. -/
def xLessMinusTwo : Expr :=
  op .pending "-" [var .pending "x", const .pending (.int (-2)) "int" none] none

theorem minusTwo_rebinds :
    Signed (const .pending (.int (-2)) "int" none) ∧ Signed (var .pending "x") ∧
    (∃ slot name cs r, Signed (op slot name cs r) ∧ (name ≠ "^" ∨ cs.length ≠ 2) ∧
      (op slot name cs r).text = minusTwoToX.text) ∧
    ¬∃ slot name cs r, Signed (op slot name cs r) ∧ (name ≠ "-" ∨ cs.length ≠ 2) ∧
      (op slot name cs r).text = xLessMinusTwo.text := by
  have htwo : Signed (const .pending (.int (-2)) "int" none) := .number _
  have hx : Signed (var .pending "x") := .var (by decide +kernel)
  refine ⟨htwo, hx, ?_, fun h => ?_⟩
  · exact (rebinds_iff (by decide) htwo hx).2
      ⟨rfl, .pending, -2, "int", rfl, by decide, by decide⟩
  · exact absurd ((rebinds_iff (by decide) hx htwo).1 h).1 (by decide)

/-- The text `-2 ^ x` is that of the power of `-2` and that of the minus before a power. -/
theorem text_minusTwoToX : Signed minusTwoToX ∧
    ∃ e, Signed (op .pending "-" [e] none) ∧
      (op .pending "-" [e] none).text = minusTwoToX.text ∧ minusTwoToX.text = "-2 ^ x" := by
  have hx : Signed (var .pending "x") := .var (by decide +kernel)
  have hpower : "^" ∈ signs := by decide
  refine ⟨.between hpower (.number _) hx,
    op .pending "^" [const .pending (.int 2) "int" none, var .pending "x"] none,
    .before (by decide) (.between hpower (.number 2) hx), ?_, ?_⟩ <;> decide +kernel

end Expr

end Formula
