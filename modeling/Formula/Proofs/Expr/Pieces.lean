import Formula.Expr.Text
import Formula.Text.Name
import Formula.Proofs.Expr.Resolution
/-!
The text of an expression as a row of pieces: variables, numbers and calls, operands in parentheses,
and the signs before and between them. Where a row is divided last can be seen from the signs alone,
so that an expression is known from its row: at the sign between that binds least, of several the
last, or the first if they group to the right.
-/

namespace Formula

/-- The signs that stand between two operands or before one. -/
def signs : List String :=
  ["||", "&&", "==", "!=", "<", "<=", ">", ">=", "+", "-", "*", "/", "^"]

theorem isSome_precedence?_iff {name : String} : (precedence? name).isSome ↔ name ∈ signs := by
  unfold precedence?
  split <;> simp_all [signs]

theorem exists_precedence {name : String} (h : name ∈ signs) : ∃ p, precedence? name = some p :=
  Option.isSome_iff_exists.1 (isSome_precedence?_iff.2 h)

theorem precedence?_le {name : String} {p : Nat} (h : precedence? name = some p) :
    p ≤ 5 ∨ name = "^" ∧ p = 7 := by
  unfold precedence? at h
  split at h <;> cases h <;> simp

theorem precedence?_eq_none_of_isName {name : String} (h : Text.isName name = true) :
    precedence? name = none := by
  have hsigns : ∀ s ∈ signs, Text.isName s = false := by decide +kernel
  rw [Option.eq_none_iff_forall_ne_some]
  intro p hp
  have hmem := isSome_precedence?_iff.1 (Option.isSome_of_eq_some hp)
  rw [hsigns name hmem] at h
  cases h

namespace Expr

/-- A piece of a text. -/
inductive Piece where
  /-- A variable, a number or a call. -/
  | leaf (e : Expr)
  /-- An operand in parentheses. -/
  | enclosed (e : Expr)
  /-- A sign before its operand. -/
  | before (sign : String)
  /-- A sign between its operands. -/
  | between (sign : String)

/-- The characters of a piece. -/
def Piece.chars : Piece → List Char
  | leaf e => e.text.toList
  | enclosed e => '(' :: e.text.toList ++ [')']
  | before sign => sign.toList
  | between sign => ' ' :: sign.toList ++ [' ']

/-- The pieces of an operand, given those that it has without parentheses. -/
def operandPieces (least : Nat) (e : Expr) (inner : List Piece) : List Piece :=
  if e.textPrecedence < least then [.enclosed e] else inner

mutual

/-- The pieces of the text of an expression. -/
def pieces : Expr → List Piece
  | op slot name cs r =>
    match precedence? name, cs, piecesOfAll cs with
    | some p, [a, b], [s, t] =>
      operandPieces (operandPrecedences name p).1 a s ++
        .between name :: operandPieces (operandPrecedences name p).2 b t
    | some _, [a], [s] => .before name :: operandPieces signPrecedence a s
    | _, _, _ => [.leaf (op slot name cs r)]
  | e => [.leaf e]

/-- The pieces of each text. -/
def piecesOfAll : List Expr → List (List Piece)
  | [] => []
  | e :: es => pieces e :: piecesOfAll es

end

/-- The pieces of an expression that is an operand. -/
abbrev within (least : Nat) (e : Expr) : List Piece :=
  operandPieces least e e.pieces

theorem within_cases (e : Expr) (least : Nat) :
    e.textPrecedence < least ∧ e.within least = [.enclosed e] ∨
      least ≤ e.textPrecedence ∧ e.within least = e.pieces := by
  unfold within operandPieces
  split
  · rename_i hless
    exact .inl ⟨hless, rfl⟩
  · rename_i hle
    exact .inr ⟨Nat.le_of_not_lt hle, rfl⟩

section Rows

variable {slot : TypeSlot} {name : String} {a b : Expr} {cs : List Expr} {r : Option Resolution}
  {p : Nat}

theorem pieces_between (h : precedence? name = some p) : (op slot name [a, b] r).pieces =
    a.within (operandPrecedences name p).1 ++
      .between name :: b.within (operandPrecedences name p).2 := by
  simp [pieces, piecesOfAll, h]

theorem pieces_before (h : (precedence? name).isSome) :
    (op slot name [a] r).pieces = .before name :: a.within signPrecedence := by
  obtain ⟨p, hp⟩ := Option.isSome_iff_exists.1 h
  simp [pieces, piecesOfAll, hp]

theorem pieces_call (h : precedence? name = none) :
    (op slot name cs r).pieces = [.leaf (op slot name cs r)] := by
  simp [pieces, h]

/-- An operator is written as a sign between or before operands, or as a call. -/
theorem operator_cases (slot : TypeSlot) (name : String) (cs : List Expr) (r : Option Resolution) :
    (∃ a b p, cs = [a, b] ∧ precedence? name = some p) ∨
    (∃ a, cs = [a] ∧ (precedence? name).isSome) ∨
    (op slot name cs r).pieces = [.leaf (op slot name cs r)] := by
  cases h : precedence? name with
  | none => exact .inr (.inr (pieces_call h))
  | some p =>
    rcases cs with _ | ⟨a, _ | ⟨b, _ | ⟨c, cs⟩⟩⟩
    · exact .inr (.inr (by simp [pieces, piecesOfAll, h]))
    · exact .inr (.inl ⟨a, rfl, rfl⟩)
    · exact .inl ⟨a, b, p, rfl, rfl⟩
    · exact .inr (.inr (by simp [pieces, piecesOfAll, h]))

theorem text_between (h : precedence? name = some p) : (op slot name [a, b] r).text =
    operandText (operandPrecedences name p).1 a a.text ++ " " ++ name ++ " " ++
      operandText (operandPrecedences name p).2 b b.text := by
  simp [text, texts, h]

theorem text_before (h : (precedence? name).isSome) :
    (op slot name [a] r).text = name ++ operandText signPrecedence a a.text := by
  obtain ⟨p, hp⟩ := Option.isSome_iff_exists.1 h
  simp [text, texts, hp]

theorem text_call (h : precedence? name = none) :
    (op slot name cs r).text = name ++ parenthesized (", ".intercalate (texts cs)) := by
  simp [text, h]

end Rows

@[simp] theorem flatMap_chars_leaf (e : Expr) :
    [Piece.leaf e].flatMap Piece.chars = e.text.toList := by
  simp [Piece.chars]

theorem toList_operandText {e : Expr} (h : e.text.toList = e.pieces.flatMap Piece.chars)
    (least : Nat) :
    (operandText least e e.text).toList = (e.within least).flatMap Piece.chars := by
  unfold operandText within operandPieces
  split
  · simp [parenthesized, Piece.chars]
  · exact h

/-- The text of an expression is that of its pieces. -/
theorem toList_text (e : Expr) : e.text.toList = e.pieces.flatMap Piece.chars := by
  induction e with
  | group | var | const => exact (flatMap_chars_leaf _).symm
  | op slot name cs r ih =>
    rcases operator_cases slot name cs r with ⟨a, b, p, rfl, h⟩ | ⟨a, rfl, h⟩ | h
    · rw [pieces_between h, text_between h]
      simp only [String.toList_append, toList_operandText (ih a (by simp)),
        toList_operandText (ih b (by simp)), List.flatMap_append, List.flatMap_cons, Piece.chars]
      simp
    · rw [pieces_before h, text_before h, String.toList_append,
        toList_operandText (ih a (by simp))]
      rfl
    · rw [h, flatMap_chars_leaf]

/-! ### Ordinary expressions -/

/-- An expression of variables, integers that are not negative, signs and calls, without groups and
without types. -/
inductive Ordinary : Expr → Prop where
  | var {name : String} (valid : Text.isName name = true) : Ordinary (.var .pending name)
  | number {n : Int64} (nonneg : 0 ≤ n.toInt) : Ordinary (.const .pending (.int n) "int" none)
  | between {name : String} {a b : Expr} (sign : name ∈ signs) (left : Ordinary a)
      (right : Ordinary b) : Ordinary (.op .pending name [a, b] none)
  | before {name : String} {a : Expr} (sign : name ∈ signs) (operand : Ordinary a) :
      Ordinary (.op .pending name [a] none)
  | call {name : String} {cs : List Expr} (valid : Text.isName name = true)
      (arguments : ∀ c ∈ cs, Ordinary c) : Ordinary (.op .pending name cs none)

theorem textPrecedence_between {slot : TypeSlot} {name : String} {a b : Expr}
    {r : Option Resolution} {p : Nat} (h : precedence? name = some p) :
    (op slot name [a, b] r).textPrecedence = p := by
  simp [textPrecedence, h]

theorem textPrecedence_before {slot : TypeSlot} {name : String} {a : Expr}
    {r : Option Resolution} (h : (precedence? name).isSome) :
    (op slot name [a] r).textPrecedence = signPrecedence := by
  simp [textPrecedence, h]

/-- What holds of the signs between the operands of an operand holds of those of the expression, if
it is put in parentheses where it would not. -/
theorem least_le_of_mem {e : Expr} {least : Nat} {s : String}
    (ih : .between s ∈ e.pieces → ∃ p, precedence? s = some p ∧ e.textPrecedence ≤ p)
    (h : .between s ∈ e.within least) : ∃ p, precedence? s = some p ∧ least ≤ p := by
  rcases e.within_cases least with ⟨-, hwithin⟩ | ⟨hleast, hwithin⟩
  · simp [hwithin] at h
  · obtain ⟨p, hp, hle⟩ := ih (hwithin ▸ h)
    exact ⟨p, hp, Nat.le_trans hleast hle⟩

/-- No sign between operands binds less than the outermost sign. -/
theorem textPrecedence_le {e : Expr} {s : String} (h : .between s ∈ e.pieces) :
    ∃ p, precedence? s = some p ∧ e.textPrecedence ≤ p := by
  induction e with
  | group | var | const => simp [pieces] at h
  | op slot name cs r ih =>
    rcases operator_cases slot name cs r with ⟨a, b, p, rfl, hname⟩ | ⟨a, rfl, hname⟩ | hleaf
    · rw [textPrecedence_between hname]
      rw [pieces_between hname, List.mem_append, List.mem_cons] at h
      have hoperands : p ≤ (operandPrecedences name p).1 ∧ p ≤ (operandPrecedences name p).2 := by
        unfold operandPrecedences
        split <;> simp
      rcases h with h | h | h
      · obtain ⟨q, hq, hle⟩ := least_le_of_mem (ih a (by simp)) h
        exact ⟨q, hq, Nat.le_trans hoperands.1 hle⟩
      · cases h
        exact ⟨p, hname, Nat.le_refl p⟩
      · obtain ⟨q, hq, hle⟩ := least_le_of_mem (ih b (by simp)) h
        exact ⟨q, hq, Nat.le_trans hoperands.2 hle⟩
    · rw [textPrecedence_before hname]
      rw [pieces_before hname, List.mem_cons] at h
      exact least_le_of_mem (ih a (by simp)) (h.resolve_left (by simp))
    · simp [hleaf] at h

theorem least_le {e : Expr} {least : Nat} {s : String} (h : .between s ∈ e.within least) :
    ∃ p, precedence? s = some p ∧ least ≤ p :=
  least_le_of_mem textPrecedence_le h

/-! ### From rows to expressions -/

theorem append_cons_inj_of_last {α : Type} {M : α → Prop} {xs xs' ys ys' : List α} {x x' : α}
    (hx : M x) (hx' : M x') (hys : ∀ y ∈ ys, ¬M y) (hys' : ∀ y ∈ ys', ¬M y)
    (h : xs ++ x :: ys = xs' ++ x' :: ys') : xs = xs' ∧ x = x' ∧ ys = ys' := by
  rcases List.append_eq_append_iff.1 h with ⟨zs, rfl, hzs⟩ | ⟨zs, rfl, hzs⟩
  · rcases List.cons_eq_append_iff.1 hzs with ⟨rfl, heq⟩ | ⟨zs, rfl, rfl⟩
    · obtain ⟨rfl, rfl⟩ := List.cons.inj heq
      simp
    · exact absurd hx' (hys x' (by simp))
  · rcases List.cons_eq_append_iff.1 hzs with ⟨rfl, heq⟩ | ⟨zs, rfl, rfl⟩
    · obtain ⟨rfl, rfl⟩ := List.cons.inj heq
      simp
    · exact absurd hx (hys' x (by simp))

section Injective

variable {a b e e' : Expr}

theorem within_ne_nil (e : Expr) (least : Nat) : e.within least ≠ [] := by
  rcases e.within_cases least with ⟨-, hwithin⟩ | ⟨-, hwithin⟩
  · simp [hwithin]
  · rw [hwithin]
    cases e with
    | group | var | const => simp [pieces]
    | op slot name cs r =>
      rcases operator_cases slot name cs r with ⟨a, b, p, rfl, h⟩ | ⟨a, rfl, h⟩ | h
      · simp [pieces_between h]
      · simp [pieces_before h]
      · simp [h]

/-- An ordinary expression is a leaf, or it has a sign before or between its operands. -/
theorem Ordinary.shape (he : Ordinary e) :
    e.pieces = [.leaf e] ∨
    (∃ name a, e = .op .pending name [a] none ∧ (precedence? name).isSome ∧ Ordinary a) ∨
    ∃ name a b p, e = .op .pending name [a, b] none ∧ precedence? name = some p ∧ Ordinary a ∧
      Ordinary b := by
  cases he with
  | var | number => exact .inl rfl
  | call valid => exact .inl (pieces_call (precedence?_eq_none_of_isName valid))
  | before sign operand =>
    exact .inr (.inl ⟨_, _, rfl, isSome_precedence?_iff.2 sign, operand⟩)
  | between sign left right =>
    obtain ⟨p, hp⟩ := exists_precedence sign
    exact .inr (.inr ⟨_, _, _, p, rfl, hp, left, right⟩)

theorem eq_leaf_of_pieces (he : Ordinary e) {x : Piece} (h : e.pieces = [x]) : x = .leaf e := by
  rcases he.shape with hleaf | ⟨name, a, rfl, hname, -⟩ | ⟨name, a, b, p, rfl, hp, -⟩
  · exact (List.singleton_inj.1 (hleaf.symm.trans h)).symm
  · rw [pieces_before hname] at h
    exact absurd (List.cons.inj h).2 (within_ne_nil _ _)
  · rw [pieces_between hp, List.append_eq_singleton_iff] at h
    rcases h with ⟨-, h⟩ | ⟨-, h⟩
    · exact absurd (List.cons.inj h).2 (within_ne_nil _ _)
    · cases h

theorem eq_of_pieces_eq_leaf (he : Ordinary e) (h : e.pieces = [.leaf e']) : e = e' :=
  (Piece.leaf.inj (eq_leaf_of_pieces he h)).symm

theorem within_injective (he : Ordinary e) (he' : Ordinary e')
    (ih : e.pieces = e'.pieces → e = e') {least : Nat} (h : e.within least = e'.within least) :
    e = e' := by
  rcases e.within_cases least with ⟨-, hwithin⟩ | ⟨-, hwithin⟩
  · rcases e'.within_cases least with ⟨-, hwithin'⟩ | ⟨-, hwithin'⟩
    · rw [hwithin, hwithin'] at h
      exact Piece.enclosed.inj (List.singleton_inj.1 h)
    · rw [hwithin, hwithin'] at h
      cases eq_leaf_of_pieces he' h.symm
  · rcases e'.within_cases least with ⟨-, hwithin'⟩ | ⟨-, hwithin'⟩
    · rw [hwithin, hwithin'] at h
      cases eq_leaf_of_pieces he h
    · rw [hwithin, hwithin'] at h
      exact ih h

/-- What binds more than all signs is a leaf. -/
theorem within_of_great (he : Ordinary e) {least : Nat} (great : 7 < least) :
    e.within least = [.enclosed e] ∨ e.within least = [.leaf e] := by
  rcases e.within_cases least with ⟨-, hwithin⟩ | ⟨hleast, hwithin⟩
  · exact .inl hwithin
  · rcases he.shape with hleaf | ⟨name, a, rfl, hname, -⟩ | ⟨name, a, b, p, rfl, hp, -⟩
    · exact .inr (hwithin.trans hleaf)
    · rw [textPrecedence_before hname, signPrecedence] at hleast
      omega
    · rw [textPrecedence_between hp] at hleast
      have hp := precedence?_le hp
      omega

section Between

variable {name name' : String} {a a' b b' c : Expr} {p p' : Nat}

/-- A sign between operands that binds more than one before an operand has nothing but a leaf or
parentheses in front. -/
theorem pieces_between_ne_before (hp : precedence? name = some p)
    (hname' : (precedence? name').isSome) (left : Ordinary a) :
    (op .pending name [a, b] none).pieces ≠ (op .pending name' [c] none).pieces := by
  intro h
  have hmem : .between name ∈ (op .pending name' [c] none).pieces := by
    rw [← h, pieces_between hp]
    simp
  obtain ⟨q, hq, hle⟩ := textPrecedence_le hmem
  rw [textPrecedence_before hname', signPrecedence] at hle
  obtain hsmall | ⟨rfl, rfl⟩ := precedence?_le hq
  · omega
  · rw [pieces_between hq, pieces_before hname'] at h
    rcases within_of_great left (show 7 < (operandPrecedences "^" 7).1 by decide) with hleft | hleft
    all_goals
      rw [hleft] at h
      cases (List.cons.inj h).1

theorem precedence_le_of_pieces_eq (hp : precedence? name = some p)
    (hp' : precedence? name' = some p')
    (h : (op .pending name [a, b] none).pieces = (op .pending name' [a', b'] none).pieces) :
    p' ≤ p := by
  have hmem : .between name ∈ (op .pending name' [a', b'] none).pieces := by
    rw [← h, pieces_between hp]
    simp
  obtain ⟨q, hq, hle⟩ := textPrecedence_le hmem
  rw [textPrecedence_between hp'] at hle
  exact Option.some.inj (hq.symm.trans hp) ▸ hle

/-- The outermost sign divides a row: the last of those that bind least, or the first if they group
to the right. -/
theorem divided (left : Ordinary a) (left' : Ordinary a') (hp : precedence? name = some p)
    (hp' : precedence? name' = some p)
    (h : a.within (operandPrecedences name p).1 ++
        .between name :: b.within (operandPrecedences name p).2 =
      a'.within (operandPrecedences name' p).1 ++
        .between name' :: b'.within (operandPrecedences name' p).2) :
    name = name' ∧
      a.within (operandPrecedences name p).1 = a'.within (operandPrecedences name p).1 ∧
      b.within (operandPrecedences name p).2 = b'.within (operandPrecedences name p).2 := by
  obtain hsmall | ⟨rfl, rfl⟩ := precedence?_le hp
  · have hprecedences : ∀ {s}, precedence? s = some p → operandPrecedences s p = (p, p + 1) := by
      intro s hs
      refine if_neg ?_
      rintro rfl
      cases hs
      omega
    rw [hprecedences hp, hprecedences hp'] at h
    rw [hprecedences hp]
    -- behind the outermost sign there is none that binds as little
    have hlast : ∀ c : Expr, ∀ x ∈ c.within (p + 1),
        ¬∃ s, x = .between s ∧ precedence? s = some p := by
      rintro c x hx ⟨s, rfl, hs⟩
      obtain ⟨q, hq, hle⟩ := least_le hx
      cases hq.symm.trans hs
      omega
    obtain ⟨hleft, hname, hright⟩ := append_cons_inj_of_last
      (M := fun x => ∃ s, x = .between s ∧ precedence? s = some p)
      ⟨name, rfl, hp⟩ ⟨name', rfl, hp'⟩ (hlast b) (hlast b') h
    exact ⟨Piece.between.inj hname, hleft, hright⟩
  · obtain rfl : name' = "^" := by
      obtain hsmall' | ⟨hname', -⟩ := precedence?_le hp'
      · omega
      · exact hname'
    have hgreat : 7 < (operandPrecedences "^" 7).1 := by decide
    have hsingle : ∀ {c}, Ordinary c → ∃ x, c.within (operandPrecedences "^" 7).1 = [x] :=
      fun hc => (within_of_great hc hgreat).elim (fun h => ⟨_, h⟩) fun h => ⟨_, h⟩
    obtain ⟨x, hx⟩ := hsingle left
    obtain ⟨x', hx'⟩ := hsingle left'
    rw [hx, hx'] at h
    obtain ⟨hleft, h⟩ := List.append_inj h rfl
    exact ⟨rfl, hx.trans (hleft ▸ hx'.symm), (List.cons.inj h).2⟩

end Between

/-- An expression is known from its row of pieces. -/
theorem pieces_injective (he : Ordinary e) (he' : Ordinary e') (h : e.pieces = e'.pieces) :
    e = e' := by
  induction he generalizing e' with
  | var | number => exact (eq_of_pieces_eq_leaf he' h.symm).symm
  | call valid =>
    rw [pieces_call (precedence?_eq_none_of_isName valid)] at h
    exact (eq_of_pieces_eq_leaf he' h.symm).symm
  | @before name a sign operand ih =>
    have hname := isSome_precedence?_iff.2 sign
    rcases he'.shape with
      hleaf | ⟨name', a', rfl, hname', operand'⟩ | ⟨name', a', b', p', rfl, hp', left', -⟩
    · exact eq_of_pieces_eq_leaf (.before sign operand) (h.trans hleaf)
    · rw [pieces_before hname, pieces_before hname'] at h
      obtain ⟨hsign, hoperand⟩ := List.cons.inj h
      rw [Piece.before.inj hsign, within_injective operand operand' (ih operand') hoperand]
    · exact absurd h.symm (pieces_between_ne_before hp' hname left')
  | @between name a b sign left right iha ihb =>
    obtain ⟨p, hp⟩ := exists_precedence sign
    rcases he'.shape with
      hleaf | ⟨name', a', rfl, hname', -⟩ | ⟨name', a', b', p', rfl, hp', left', right'⟩
    · exact eq_of_pieces_eq_leaf (.between sign left right) (h.trans hleaf)
    · exact absurd h (pieces_between_ne_before hp hname' left)
    · obtain rfl := Nat.le_antisymm (precedence_le_of_pieces_eq hp' hp h.symm)
        (precedence_le_of_pieces_eq hp hp' h)
      rw [pieces_between hp, pieces_between hp'] at h
      obtain ⟨rfl, hleft, hright⟩ := divided left left' hp hp' h
      rw [within_injective left left' (iha left') hleft,
        within_injective right right' (ihb right') hright]

end Injective

end Expr

end Formula
