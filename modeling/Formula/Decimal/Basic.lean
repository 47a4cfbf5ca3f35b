/-!
Decimal numbers `mantissa · 10 ^ exponent`, their digits, and the ways to write them: positionally,
or with one digit before the point and an exponent.
-/

namespace Formula

/-- The number `mantissa · 10 ^ exponent`. -/
structure Decimal where
  mantissa : Nat
  exponent : Int
  deriving DecidableEq, Repr, Inhabited

namespace Decimal

/-- Drops `n` factors of ten at most, as many as divide the mantissa. -/
def stripZeros : Nat → Decimal → Decimal
  | 0, d => d
  | n + 1, d =>
    if d.mantissa % 10 = 0 then stripZeros n ⟨d.mantissa / 10, d.exponent + 1⟩ else d

/-- The same number with a mantissa that ten does not divide; zero has exponent zero. -/
def normal (d : Decimal) : Decimal :=
  if d.mantissa = 0 then ⟨0, 0⟩ else stripZeros d.mantissa.log2 d

/-- The digits of the mantissa. -/
def digits (d : Decimal) : List Char :=
  Nat.toDigits 10 d.mantissa

/-- The exponent of ten that the first digit stands for. -/
def leading (d : Decimal) : Int :=
  d.exponent + ((d.digits.length : Int) - 1)

/-- So many zeros. -/
def zeros (n : Nat) : List Char :=
  List.replicate n '0'

/-- The digits before the point. -/
def whole (d : Decimal) : List Char :=
  if d.leading < 0 then ['0']
  else d.digits.take (d.leading.toNat + 1) ++ zeros d.exponent.toNat

/-- The digits after the point. -/
def fraction (d : Decimal) : List Char :=
  if d.leading < 0 then zeros (-d.leading - 1).toNat ++ d.digits
  else d.digits.drop (d.leading.toNat + 1)

/-- Positional notation, without a point where there is no fraction. -/
def positional (d : Decimal) : List Char :=
  match d.fraction with
  | [] => d.whole
  | f => d.whole ++ '.' :: f

/-- One digit, the others after a point, and the exponent after the mark. -/
def scientific (mark : List Char) (d : Decimal) : List Char :=
  let exponent := (toString d.leading).toList
  match d.digits with
  | [c] => c :: mark ++ exponent
  | c :: cs => c :: '.' :: cs ++ mark ++ exponent
  | [] => mark ++ exponent

end Decimal

end Formula
