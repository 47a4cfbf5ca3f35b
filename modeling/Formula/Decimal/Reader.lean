import Formula.Decimal.Basic
import Formula.Decimal.Binary
/-!
Reading numbers: the double nearest to a decimal, and the texts of integers and of real numbers.
-/

namespace Formula.Decimal

/-- Powers of ten so far below or above one that every double is nearer to one than they are. -/
def exponentBound : Nat := 400

/-- The double nearest to a decimal, with a sign. A decimal beyond the range of doubles gives an
infinity, one below it zero; neither power of ten is computed then. -/
def toDouble (negative : Bool) (d : Decimal) : Double :=
  Double.ofMagnitude negative <|
    if d.mantissa = 0 then 0
    else if 0 ≤ d.exponent then
      if exponentBound < d.exponent.toNat then Double.infinityBits
      else Binary.nearest (d.mantissa * Nat.pow 10 d.exponent.toNat) 1
    else
      let places := (-d.exponent).toNat
      if d.mantissa.log2 + 1 + exponentBound < places then 0
      else Binary.nearest d.mantissa (Nat.pow 10 places)

/-- The value of a digit. -/
def digitValue (c : Char) : Nat :=
  c.toNat - '0'.toNat

/-- The number that a list of digits writes. -/
def ofDigits (cs : List Char) : Nat :=
  cs.foldl (fun n c => 10 * n + digitValue c) 0

/-- Splits off the digits at the front. -/
def spanDigits (cs : List Char) : List Char × List Char :=
  (cs.takeWhile Char.isDigit, cs.dropWhile Char.isDigit)

/-- Splits off a sign: whether it is a minus, and the rest. -/
def spanSign : List Char → Bool × List Char
  | '-' :: cs => (true, cs)
  | '+' :: cs => (false, cs)
  | cs => (false, cs)

/-- Reads an integer that fills the text: an optional sign and at least one digit. -/
def intOf? (cs : List Char) : Option Int :=
  let (negative, ds) := spanSign cs
  if ds.isEmpty || !ds.all Char.isDigit then none
  else some (if negative then -(ofDigits ds : Int) else ofDigits ds)

/-- Reads a 64-bit integer: a sign if wanted, then digits. -/
def readInt64? (text : String) : Option Int64 :=
  (intOf? text.toList).bind fun n =>
    if Int64.minValue.toInt ≤ n ∧ n ≤ Int64.maxValue.toInt then some (Int64.ofInt n) else none

/-- Reads an exponent that fills the text, if there is text: a mark, an optional sign, digits. -/
def exponentOf? : List Char → Option Int
  | [] => some 0
  | c :: cs => if c = 'e' ∨ c = 'E' then intOf? cs else none

/-- Reads an unsigned decimal: digits with a point anywhere among them or none, at least one digit,
and an exponent if wanted. -/
def magnitudeOf? (cs : List Char) : Option Decimal :=
  let (whole, rest) := spanDigits cs
  let (fraction, rest) :=
    match rest with
    | '.' :: rest => spanDigits rest
    | rest => ([], rest)
  if whole.isEmpty && fraction.isEmpty then none
  else (exponentOf? rest).map fun e =>
    ⟨ofDigits (whole ++ fraction), e - fraction.length⟩

/-- Reads a real number: a sign if wanted, then a decimal or, in any case of letters, `inf`,
`infinity` or `nan`. -/
def readDouble? (text : String) : Option Double :=
  let (negative, cs) := spanSign text.toList
  let word := cs.map Char.toLower
  if word = "inf".toList ∨ word = "infinity".toList then
    some (.ofMagnitude negative Double.infinityBits)
  else if word = "nan".toList then
    some (.notNumber negative)
  else (magnitudeOf? cs).map (toDouble negative)

end Formula.Decimal
