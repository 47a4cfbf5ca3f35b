import Formula.Json.Reader
import Formula.Json.Writer
/-!
Numbers in JSON documents. A number is written as a sign, digits that no zero leads, and a fraction
or an exponent; where nothing behind it could belong to it, exactly these parts are read back. An
integer of 64 bits at most is the integer written. A decimal keeps as many of its digits as fit, and
stays a decimal.
-/

namespace Formula.Json

open Decimal (spanDigits spanSign ofDigits zeros)

/-! ### Digits -/

/-- Nothing at the front could belong to the digits of a number before it. -/
def NoDigit (rest : List Char) : Prop :=
  ∀ c ∈ rest.head?, c.isDigit = false

/-- Nothing at the front could belong to a number before it. -/
def Delimited (rest : List Char) : Prop :=
  ∀ c ∈ rest.head?, c.isDigit = false ∧ c ≠ '.' ∧ c ≠ 'e' ∧ c ≠ 'E'

theorem Delimited.noDigit {rest : List Char} (h : Delimited rest) : NoDigit rest :=
  fun c hc => (h c hc).1

theorem delimited_nil : Delimited [] := by
  simp [Delimited]

theorem spanDigits_append {ds rest : List Char} (hds : ∀ c ∈ ds, c.isDigit) (hrest : NoDigit rest) :
    spanDigits (ds ++ rest) = (ds, rest) := by
  have htake : rest.takeWhile Char.isDigit = [] := by
    cases rest with
    | nil => rfl
    | cons c cs => simp [hrest c rfl]
  have hdrop : rest.dropWhile Char.isDigit = rest := by
    cases rest with
    | nil => rfl
    | cons c cs => simp [hrest c rfl]
  rw [spanDigits, List.takeWhile_append_of_pos hds, List.dropWhile_append_of_pos hds, htake, hdrop,
    List.append_nil]

theorem isDigit_of_mem_toDigits {n : Nat} {c : Char} (h : c ∈ Nat.toDigits 10 n) : c.isDigit :=
  Nat.isDigit_of_mem_toDigits (by decide) (by decide) h

theorem ofDigits_toDigits (n : Nat) : ofDigits (Nat.toDigits 10 n) = n :=
  Nat.ofDigitChars_toDigits (by decide) (by decide)

/-- Only zero is written with a zero in front. -/
theorem head?_toDigits {n : Nat} (h : (Nat.toDigits 10 n).head? = some '0') : n = 0 := by
  induction n using Nat.strongRecOn with
  | ind n ih =>
    by_cases hn : n < 10
    · rw [Nat.toDigits_of_lt_base hn] at h
      have hdigit : ∀ k < 10, some (Nat.digitChar k) = some '0' → k = 0 := by decide
      exact hdigit n hn h
    · have hhead : (Nat.toDigits 10 (n / 10)).head? = some '0' := by
        obtain ⟨c, cs, hcs⟩ := List.exists_cons_of_ne_nil (@Nat.toDigits_ne_nil (n / 10) 10)
        rw [Nat.toDigits_of_base_le (by decide) (by omega), hcs] at h
        rwa [hcs]
      have := ih (n / 10) (by omega) hhead
      omega

/-- Digits as they stand before the point: one at least, and no zero before others. -/
structure IsWhole (ds : List Char) : Prop where
  nonempty : ds ≠ []
  digits : ∀ c ∈ ds, c.isDigit
  leading : ds.head? = some '0' → ds.length = 1

theorem IsWhole.singleton {c : Char} (h : c.isDigit) : IsWhole [c] :=
  ⟨List.cons_ne_nil _ _, by simpa using h, fun _ => rfl⟩

theorem isWhole_toDigits (n : Nat) : IsWhole (Nat.toDigits 10 n) := by
  refine ⟨Nat.toDigits_ne_nil, fun c => isDigit_of_mem_toDigits, fun h => ?_⟩
  rw [head?_toDigits h, Nat.toDigits_zero]
  rfl

/-! ### Parts -/

theorem scanFraction_of_ne {rest : List Char} (h : ∀ c ∈ rest.head?, c ≠ '.') :
    scanFraction rest = some ([], rest) := by
  cases rest with
  | nil => rfl
  | cons c cs =>
    have hc : c ≠ '.' := h c rfl
    rw [scanFraction.eq_2 _ (by rintro _ ⟨⟩; exact hc rfl)]

theorem scanFraction_append {ds rest : List Char} (hne : ds ≠ []) (hds : ∀ c ∈ ds, c.isDigit)
    (hrest : NoDigit rest) : scanFraction ('.' :: (ds ++ rest)) = some (ds, rest) := by
  simp [scanFraction, spanDigits_append hds hrest, hne]

theorem scanExponent_of_ne {rest : List Char} (h : ∀ c ∈ rest.head?, c ≠ 'e' ∧ c ≠ 'E') :
    scanExponent rest = some (none, rest) := by
  cases rest with
  | nil => rfl
  | cons c cs => simp [scanExponent, h c rfl]

/-- An integer is written as its sign, if it is below zero, and its digits. -/
theorem toList_toString (n : Int) :
    (toString n).toList = (if n < 0 then ['-'] else []) ++ Nat.toDigits 10 n.natAbs := by
  rw [Int.toString_eq_repr, Int.repr_eq_if]
  by_cases hn : n < 0
  · have habs : (-n).toNat = n.natAbs := by omega
    simp [hn, Int.not_le.2 hn, habs]
  · have habs : n.toNat = n.natAbs := by omega
    simp [hn, Int.not_lt.1 hn, habs]

/-- An exponent as written. -/
def exponentChars (n : Int) : List Char :=
  (if n < 0 then ['e'] else ['e', '+']) ++ (toString n).toList

theorem scanExponent_append (n : Int) {rest : List Char} (hrest : NoDigit rest) :
    scanExponent (exponentChars n ++ rest) = some (some n, rest) := by
  have hspan : spanDigits (Nat.toDigits 10 n.natAbs ++ rest) = (Nat.toDigits 10 n.natAbs, rest) :=
    spanDigits_append (fun c => isDigit_of_mem_toDigits) hrest
  unfold exponentChars
  rw [toList_toString]
  generalize hk : n.natAbs = k at hspan ⊢
  by_cases hn : n < 0
  · have habs : -(k : Int) = n := by omega
    simp [hn, scanExponent, spanSign, hspan, ofDigits_toDigits, habs]
  · have habs : (k : Int) = n := by omega
    simp [hn, scanExponent, spanSign, hspan, ofDigits_toDigits, habs]

/-- A number is read from its parts, up to where its exponent ends. -/
theorem scanNumber_append {whole fraction tail tail' rest : List Char} {exponent : Option Int}
    (negative : Bool) (hwhole : IsWhole whole) (htail : NoDigit tail)
    (hfraction : scanFraction tail = some (fraction, tail'))
    (hexponent : scanExponent tail' = some (exponent, rest)) :
    scanNumber ((if negative then ['-'] else []) ++ (whole ++ tail)) =
      some (numberOf negative whole fraction exponent, rest) := by
  have hspan := spanDigits_append hwhole.digits htail
  have hfine : ¬(whole.isEmpty || (whole.head? == some '0' && whole.length != 1)) = true := by
    simpa [hwhole.nonempty] using hwhole.leading
  cases negative with
  | true => simp [scanNumber, hspan, hfine, hfraction, hexponent]
  | false =>
    obtain ⟨c, cs, rfl⟩ := List.exists_cons_of_ne_nil hwhole.nonempty
    have hc : c ≠ '-' := by
      rintro rfl
      exact absurd (hwhole.digits _ List.mem_cons_self) (by decide)
    rw [List.cons_append] at hspan
    simpa [scanNumber, hspan, hfraction, hexponent, hc] using hfine

/-- A number begins with its sign or a digit, which no other token does. -/
theorem scanToken_number {whole : List Char} (negative : Bool) (hwhole : IsWhole whole)
    (tail : List Char) :
    scanToken ((if negative then ['-'] else []) ++ (whole ++ tail)) =
      (scanNumber ((if negative then ['-'] else []) ++ (whole ++ tail))).map
        fun p => (.leaf p.1, p.2) := by
  have hfirst : ∃ c cs, (if negative then ['-'] else []) ++ (whole ++ tail) = c :: cs ∧
      (c = '-' ∨ c.isDigit) := by
    obtain ⟨c, cs, rfl⟩ := List.exists_cons_of_ne_nil hwhole.nonempty
    cases negative with
    | true => exact ⟨_, _, rfl, .inl rfl⟩
    | false => exact ⟨_, _, rfl, .inr (hwhole.digits c List.mem_cons_self)⟩
  obtain ⟨c, cs, heq, hc⟩ := hfirst
  have hother {d : Char} (hd : ¬(d = '-' ∨ d.isDigit)) : c ≠ d := by
    rintro rfl
    exact hd hc
  rw [heq, scanToken.eq_11]
  all_goals
    rintro _ ⟨⟩
    exact absurd rfl (hother (by decide))

/-! ### Integers -/

theorem le_foldl_digits (m : Nat) (ds : List Char) :
    m ≤ ds.foldl (fun n c => 10 * n + Decimal.digitValue c) m := by
  induction ds generalizing m with
  | nil => exact Nat.le_refl m
  | cons c cs ih => exact Nat.le_trans (show m ≤ 10 * m + Decimal.digitValue c by omega) (ih _)

/-- Digits that fit are all gathered. -/
theorem gather_eq {m : Nat} {ds : List Char}
    (h : ds.foldl (fun n c => 10 * n + Decimal.digitValue c) m ≤ greatestMantissa) :
    gather m ds = (ds.foldl (fun n c => 10 * n + Decimal.digitValue c) m, ds.length) := by
  induction ds generalizing m with
  | nil => rfl
  | cons c cs ih =>
    have hfits : ¬greatestMantissa < 10 * m + Decimal.digitValue c :=
      Nat.not_lt.2 (Nat.le_trans (le_foldl_digits _ cs) h)
    simp only [gather, if_neg hfits, ih h, List.foldl_cons, List.length_cons]

theorem numberOf_integer {n : Int} (hn : n.natAbs ≤ greatestMantissa) :
    numberOf (decide (n < 0)) (Nat.toDigits 10 n.natAbs) [] none = integer n := by
  generalize hk : n.natAbs = k at hn ⊢
  have hvalue := ofDigits_toDigits k
  have hgather : gather 0 (Nat.toDigits 10 k) = (k, (Nat.toDigits 10 k).length) := by
    rw [ofDigits] at hvalue
    rw [gather_eq (by rwa [hvalue]), hvalue]
  have hkept : kept (Nat.toDigits 10 k) [] 0 = ⟨k, 0⟩ := by
    simp [kept, hgather, gather]
  by_cases hneg : n < 0
  · have habs : -(k : Int) = n := by omega
    have hzero : k ≠ 0 := by omega
    simp [numberOf, hkept, hneg, habs, hzero]
  · have habs : (k : Int) = n := by omega
    simp [numberOf, hkept, hneg, habs]

/-- An integer of 64 bits at most is read back. -/
theorem scanToken_integer {n : Int} (hn : n.natAbs ≤ greatestMantissa) {rest : List Char}
    (hrest : Delimited rest) :
    scanToken ((toString n).toList ++ rest) = some (.leaf (integer n), rest) := by
  have hwhole := isWhole_toDigits n.natAbs
  have hread := scanNumber_append (decide (n < 0)) hwhole hrest.noDigit
    (scanFraction_of_ne fun c hc => (hrest c hc).2.1)
    (scanExponent_of_ne fun c hc => (hrest c hc).2.2)
  have hchars : (toString n).toList ++ rest =
      (if decide (n < 0) = true then ['-'] else []) ++ (Nat.toDigits 10 n.natAbs ++ rest) := by
    rw [toList_toString, List.append_assoc]
    simp only [decide_eq_true_eq]
  rw [hchars, scanToken_number _ hwhole, hread, numberOf_integer hn]
  rfl

/-! ### Decimals -/

/-- The digits behind the point of a decimal in positional notation, one at least. -/
def fractionChars (d : Decimal) : List Char :=
  if d.fraction.isEmpty then ['0'] else d.fraction

/-- The decimal that is kept of a decimal as it is written. -/
def rewritten (d : Decimal) : Decimal :=
  if -5 ≤ d.leading ∧ d.leading < 16 then kept d.whole (fractionChars d) 0
  else kept (d.digits.take 1) (d.digits.drop 1) d.leading

theorem isDigit_of_mem_zeros {n : Nat} {c : Char} (h : c ∈ zeros n) : c.isDigit := by
  rw [List.eq_of_mem_replicate h]
  decide

theorem fractionChars_ne_nil (d : Decimal) : fractionChars d ≠ [] := by
  unfold fractionChars
  split
  case isTrue => exact List.cons_ne_nil _ _
  case isFalse h => simpa using h

theorem isDigit_of_mem_fractionChars {d : Decimal} {c : Char} (h : c ∈ fractionChars d) :
    c.isDigit := by
  unfold fractionChars at h
  split at h
  case isTrue =>
    rw [List.mem_singleton.1 h]
    decide
  case isFalse =>
    unfold Decimal.fraction at h
    split at h
    case isTrue =>
      rcases List.mem_append.1 h with hz | hd
      · exact isDigit_of_mem_zeros hz
      · exact isDigit_of_mem_toDigits hd
    case isFalse => exact isDigit_of_mem_toDigits (List.mem_of_mem_drop h)

/-- No zero leads the digits before the point, if zero is written with exponent zero. -/
theorem isWhole_whole {d : Decimal} (hd : d.mantissa = 0 → d.exponent = 0) : IsWhole d.whole := by
  unfold Decimal.whole
  split
  case isTrue => exact .singleton (by decide)
  case isFalse hlow =>
    obtain ⟨c, cs, hcs⟩ := List.exists_cons_of_ne_nil (isWhole_toDigits d.mantissa).nonempty
    have hdigits : d.digits = c :: cs := hcs
    refine ⟨by simp [hdigits], fun x hx => ?_, fun hhead => ?_⟩
    · rcases List.mem_append.1 hx with hx | hx
      · exact isDigit_of_mem_toDigits (List.mem_of_mem_take hx)
      · exact isDigit_of_mem_zeros hx
    · have hzero : d.mantissa = 0 := by
        apply head?_toDigits
        rw [hcs]
        simpa [hdigits] using hhead
      have hone : d.digits = ['0'] := by rw [Decimal.digits, hzero, Nat.toDigits_zero]
      simp [hone, hd hzero, zeros]

/-- The digits behind the first one in scientific notation, behind a point if there are any. -/
def fractionMark (cs : List Char) : List Char :=
  if cs.isEmpty then [] else '.' :: cs

theorem exponentChars_eq_cons (n : Int) : ∃ cs, exponentChars n = 'e' :: cs := by
  unfold exponentChars
  split <;> exact ⟨_, rfl⟩

theorem decimalChars_scientific {d : Decimal} (h : ¬(-5 ≤ d.leading ∧ d.leading < 16)) {c : Char}
    {cs : List Char} (hdigits : d.digits = c :: cs) (rest : List Char) :
    decimalChars d ++ rest = [c] ++ (fractionMark cs ++ (exponentChars d.leading ++ rest)) := by
  cases cs <;>
    simp [decimalChars, h, Decimal.scientific, hdigits, fractionMark, exponentChars]

theorem decimalChars_ne_nil (d : Decimal) : decimalChars d ≠ [] := by
  obtain ⟨c, cs, hcs⟩ := List.exists_cons_of_ne_nil (isWhole_toDigits d.mantissa).nonempty
  by_cases h : -5 ≤ d.leading ∧ d.leading < 16
  · simp [decimalChars, h]
  · have hchars := decimalChars_scientific h hcs []
    rw [List.append_nil] at hchars
    exact hchars ▸ List.cons_ne_nil _ _

theorem noDigit_fractionMark (cs : List Char) (n : Int) (rest : List Char) :
    NoDigit (fractionMark cs ++ (exponentChars n ++ rest)) := by
  obtain ⟨es, hes⟩ := exponentChars_eq_cons n
  cases cs <;> simp [NoDigit, fractionMark, hes]

theorem scanFraction_fractionMark (cs : List Char) (hcs : ∀ c ∈ cs, c.isDigit) (n : Int)
    (rest : List Char) :
    scanFraction (fractionMark cs ++ (exponentChars n ++ rest)) =
      some (cs, exponentChars n ++ rest) := by
  obtain ⟨es, hes⟩ := exponentChars_eq_cons n
  cases cs with
  | nil => exact scanFraction_of_ne (by simp [fractionMark, hes])
  | cons c cs =>
    exact scanFraction_append (List.cons_ne_nil c cs) hcs (by simp [NoDigit, hes])

/-- A decimal is read back as a decimal, with as many of its digits as fit. -/
theorem scanToken_decimal (negative : Bool) {d : Decimal} (hd : d.mantissa = 0 → d.exponent = 0)
    {rest : List Char} (hrest : Delimited rest) :
    scanToken ((if negative then ['-'] else []) ++ decimalChars d ++ rest) =
      some (.leaf (decimal negative (rewritten d)), rest) := by
  have hexponent : scanExponent rest = some (none, rest) :=
    scanExponent_of_ne fun c hc => (hrest c hc).2.2
  by_cases hplain : -5 ≤ d.leading ∧ d.leading < 16
  · have hfraction := scanFraction_append (fractionChars_ne_nil d)
      (fun c => isDigit_of_mem_fractionChars) hrest.noDigit
    have hread := scanNumber_append negative (isWhole_whole hd) (by simp [NoDigit]) hfraction
      hexponent
    have hnumber : numberOf negative d.whole (fractionChars d) none =
        decimal negative (rewritten d) := by
      simp [numberOf, rewritten, hplain, fractionChars_ne_nil d]
    have hchars : decimalChars d ++ rest = d.whole ++ ('.' :: (fractionChars d ++ rest)) := by
      simp [decimalChars, hplain, fractionChars]
    rw [List.append_assoc, hchars, scanToken_number _ (isWhole_whole hd), hread, hnumber]
    rfl
  · obtain ⟨c, cs, hcs⟩ := List.exists_cons_of_ne_nil (isWhole_toDigits d.mantissa).nonempty
    have hdigits : d.digits = c :: cs := hcs
    have hdigit : ∀ x ∈ c :: cs, x.isDigit := fun x hx => isDigit_of_mem_toDigits (hcs ▸ hx)
    have hwhole : IsWhole [c] := .singleton (hdigit c List.mem_cons_self)
    have hread := scanNumber_append negative hwhole (noDigit_fractionMark cs d.leading rest)
      (scanFraction_fractionMark cs (fun x hx => hdigit x (List.mem_cons_of_mem _ hx)) d.leading
        rest)
      (scanExponent_append d.leading hrest.noDigit)
    have hnumber : numberOf negative [c] cs (some d.leading) = decimal negative (rewritten d) := by
      simp [numberOf, rewritten, hplain, hdigits]
    rw [List.append_assoc, decimalChars_scientific hplain hdigits, scanToken_number _ hwhole, hread,
      hnumber]
    rfl

end Formula.Json
