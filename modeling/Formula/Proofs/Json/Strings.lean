import Formula.Json.Reader
import Formula.Json.Writer
/-!
Texts in JSON documents. A character is written as itself, as an escape of one letter, or as the
four digits of its unit, and each of the three is read back as that character; so a text is read
back from between its quotes, and reading it stops behind them.
-/

namespace Formula.Json

/-! ### Characters -/

/-- The three ways to write a character. -/
theorem escape_cases (c : Char) :
    (∃ e, e ≠ 'u' ∧ escapeOf? e = some c ∧ escape c = ['\\', e]) ∨
    (c.toNat < 0x20 ∧
      escape c = ['\\', 'u', '0', '0', hexDigit (c.toNat / 16), hexDigit (c.toNat % 16)]) ∨
    (c ≠ '"' ∧ c ≠ '\\' ∧ 0x20 ≤ c.toNat ∧ escape c = [c]) := by
  unfold escape
  split
  case h_8 hquote hslash _ _ _ _ _ =>
    split
    case isTrue hlow => exact .inr (.inl ⟨hlow, rfl⟩)
    case isFalse hhigh => exact .inr (.inr ⟨hquote, hslash, Nat.le_of_not_lt hhigh, rfl⟩)
  all_goals exact .inl ⟨_, by decide, by rfl, rfl⟩

theorem hexUnit?_hexDigit :
    ∀ n < 0x20, hexUnit? '0' '0' (hexDigit (n / 16)) (hexDigit (n % 16)) = some n := by
  decide

/-- The units that a character is written as: itself, or its number if it is a control character. -/
def Unit16.Writes (c : Char) : Unit16 → Prop
  | plain d => d = c
  | escaped unit => unit = c.toNat ∧ unit < 0x20

/-- What is read from the characters that a character is written as. -/
theorem scanString_escape (c : Char) :
    ∃ unit : Unit16, unit.Writes c ∧ ∀ cs,
      scanString (escape c ++ cs) = (scanString cs).map fun p => (unit :: p.1, p.2) := by
  rcases escape_cases c with ⟨e, hu, hescape, heq⟩ | ⟨hlow, heq⟩ | ⟨hquote, hslash, hhigh, heq⟩
  · refine ⟨.plain c, rfl, fun cs => ?_⟩
    rw [heq, List.cons_append, List.cons_append, List.nil_append,
      scanString.eq_4 _ _ (by rintro _ _ _ _ _ rfl; exact absurd rfl hu), hescape]
    cases scanString cs <;> rfl
  · refine ⟨.escaped c.toNat, ⟨rfl, hlow⟩, fun cs => ?_⟩
    rw [heq]
    simp only [List.cons_append, List.nil_append, scanString, hexUnit?_hexDigit _ hlow]
    cases scanString cs <;> rfl
  · refine ⟨.plain c, rfl, fun cs => ?_⟩
    rw [heq, List.cons_append, List.nil_append, scanString.eq_5 _ _ (by simpa using hquote)
      (by rintro _ _ _ _ _ rfl; exact absurd rfl hslash)
      (by rintro _ _ rfl; exact absurd rfl hslash),
      if_neg (by simp [hslash, hhigh])]
    cases scanString cs <;> rfl

/-- A unit that is no half of a surrogate pair stands for its character, whatever follows. -/
theorem stringOf?_cons {unit : Unit16} {c : Char} (h : unit.Writes c) (units : List Unit16) :
    stringOf? (unit :: units) = (stringOf? units).map (c :: ·) := by
  cases unit with
  | plain d =>
    cases h
    rfl
  | escaped unit =>
    obtain ⟨rfl, hlow⟩ := h
    have hpair : ¬(0xD800 ≤ c.toNat ∧ c.toNat < 0xDC00) := by omega
    have hhalf : ¬(0xDC00 ≤ c.toNat ∧ c.toNat < 0xE000) := by omega
    have hunit : ¬(0xD800 ≤ c.toNat ∧ c.toNat < 0xE000) := by omega
    rcases units with _ | ⟨_ | _, units⟩ <;> simp [stringOf?, hpair, hhalf, hunit]

/-! ### Texts -/

/-- The characters of a text are read up to the closing quote, and no further. -/
theorem scanString_flatMap_escape (s rest : List Char) :
    ∃ units, scanString (s.flatMap escape ++ '"' :: rest) = some (units, rest) ∧
      stringOf? units = some s := by
  induction s with
  | nil => exact ⟨[], rfl, rfl⟩
  | cons c s ih =>
    obtain ⟨units, hscan, hunits⟩ := ih
    obtain ⟨unit, hwrites, hread⟩ := scanString_escape c
    refine ⟨unit :: units, ?_, ?_⟩
    · rw [List.flatMap_cons, List.append_assoc, hread, hscan, Option.map_some]
    · rw [stringOf?_cons hwrites, hunits, Option.map_some]

theorem quoted_some (s : String) :
    quoted (some s) = '"' :: (s.toList.flatMap escape ++ ['"']) := rfl

theorem quoted_none : quoted none = ['"', '\\', 'u', 'd', '8', '0', '0', '"'] := rfl

/-- A text between its quotes is read back, half of a surrogate pair as no text. -/
theorem scanToken_quoted (text : Option String) (rest : List Char) :
    scanToken (quoted text ++ rest) = some (.leaf (string text), rest) := by
  cases text with
  | none =>
    have hunit : hexUnit? 'd' '8' '0' '0' = some 0xD800 := by decide
    simp [quoted_none, scanToken, scanString, hunit, stringOf?]
  | some s =>
    obtain ⟨units, hscan, hunits⟩ := scanString_flatMap_escape s.toList rest
    simp [quoted_some, scanToken, hscan, hunits]

theorem quoted_ne_nil (text : Option String) : quoted text ≠ [] := by
  cases text with
  | none => exact quoted_none ▸ List.cons_ne_nil _ _
  | some s => exact quoted_some s ▸ List.cons_ne_nil _ _

end Formula.Json
