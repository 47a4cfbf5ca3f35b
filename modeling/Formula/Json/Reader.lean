import Formula.Json.Basic
/-!
Reading JSON texts. The text is cut into tokens, and each token moves a machine that holds the
arrays and objects still open. Nothing but white space may surround the document.
-/

namespace Formula.Json

/-- A character of a text as written: itself or the escape of a 16-bit unit. -/
inductive Unit16 where
  | plain (c : Char)
  | escaped (unit : Nat)

/-- The string that units write; the escapes of the two halves of a surrogate pair write one
character, and half a pair alone writes none. -/
def stringOf? : List Unit16 → Option (List Char)
  | [] => some []
  | .plain c :: rest => (stringOf? rest).map (c :: ·)
  | .escaped high :: .escaped low :: rest =>
    if 0xD800 ≤ high ∧ high < 0xDC00 then
      if 0xDC00 ≤ low ∧ low < 0xE000 then
        (stringOf? rest).map (Char.ofNat (0x10000 + (high - 0xD800) * 0x400 + (low - 0xDC00)) :: ·)
      else none
    else if 0xDC00 ≤ high ∧ high < 0xE000 then none
    else (stringOf? (.escaped low :: rest)).map (Char.ofNat high :: ·)
  | .escaped unit :: rest =>
    if 0xD800 ≤ unit ∧ unit < 0xE000 then none
    else (stringOf? rest).map (Char.ofNat unit :: ·)

/-- The value of a hexadecimal digit. -/
def hexValue? (c : Char) : Option Nat :=
  if '0' ≤ c ∧ c ≤ '9' then some (c.toNat - '0'.toNat)
  else if 'a' ≤ c ∧ c ≤ 'f' then some (c.toNat - 'a'.toNat + 10)
  else if 'A' ≤ c ∧ c ≤ 'F' then some (c.toNat - 'A'.toNat + 10)
  else none

/-- The unit that four hexadecimal digits write. -/
def hexUnit? (a b c d : Char) : Option Nat := do
  let a ← hexValue? a
  let b ← hexValue? b
  let c ← hexValue? c
  let d ← hexValue? d
  some (((a * 16 + b) * 16 + c) * 16 + d)

/-- The character that a one-letter escape writes. -/
def escapeOf? (c : Char) : Option Char :=
  match c with
  | '"' => some '"'
  | '\\' => some '\\'
  | '/' => some '/'
  | 'b' => some '\x08'
  | 'f' => some '\x0c'
  | 'n' => some '\n'
  | 'r' => some '\r'
  | 't' => some '\t'
  | _ => none

/-- Reads a text behind its opening quote, up to the closing one. -/
def scanString : List Char → Option (List Unit16 × List Char)
  | [] => none
  | '"' :: cs => some ([], cs)
  | '\\' :: 'u' :: a :: b :: c :: d :: cs => do
    let unit ← hexUnit? a b c d
    let (units, rest) ← scanString cs
    some (.escaped unit :: units, rest)
  | '\\' :: e :: cs => do
    let c ← escapeOf? e
    let (units, rest) ← scanString cs
    some (.plain c :: units, rest)
  | c :: cs =>
    if c = '\\' ∨ c.toNat < 0x20 then none
    else do
      let (units, rest) ← scanString cs
      some (.plain c :: units, rest)

/-- Reads the fraction of a number, if there is one. -/
def scanFraction : List Char → Option (List Char × List Char)
  | '.' :: cs =>
    let (digits, rest) := Decimal.spanDigits cs
    if digits.isEmpty then none else some (digits, rest)
  | cs => some ([], cs)

/-- Reads the exponent of a number, if there is one. -/
def scanExponent : List Char → Option (Option Int × List Char)
  | [] => some (none, [])
  | c :: cs =>
    if c = 'e' ∨ c = 'E' then
      let (negative, cs) := Decimal.spanSign cs
      let (digits, rest) := Decimal.spanDigits cs
      let n : Int := Decimal.ofDigits digits
      if digits.isEmpty then none else some (some (if negative then -n else n), rest)
    else some (none, c :: cs)

/-- The number with the given parts. -/
def numberOf (negative : Bool) (whole fraction : List Char) (exponent : Option Int) : Json :=
  let d := kept whole fraction (exponent.getD 0)
  if fraction.isEmpty && exponent.isNone && d.exponent == 0 && !(negative && d.mantissa == 0) then
    integer (if negative then -(d.mantissa : Int) else d.mantissa)
  else decimal negative d

/-- Reads a number: no digit may stand before or behind a leading zero but the point. -/
def scanNumber (cs : List Char) : Option (Json × List Char) := do
  let (negative, cs) := match cs with
    | '-' :: cs => (true, cs)
    | cs => (false, cs)
  let (whole, rest) := Decimal.spanDigits cs
  if whole.isEmpty || (whole.head? == some '0' && whole.length != 1) then none
  let (fraction, rest) ← scanFraction rest
  let (exponent, rest) ← scanExponent rest
  some (numberOf negative whole fraction exponent, rest)

/-- The marks of a JSON text, and its values without parts. -/
inductive Token where
  | openArray
  | closeArray
  | openObject
  | closeObject
  | colon
  | comma
  | leaf (j : Json)

/-- Whether a character may stand between tokens. -/
def isGap (c : Char) : Bool :=
  c == ' ' || c == '\t' || c == '\n' || c == '\r'

/-- Reads the token at the front. -/
def scanToken : List Char → Option (Token × List Char)
  | '[' :: cs => some (.openArray, cs)
  | ']' :: cs => some (.closeArray, cs)
  | '{' :: cs => some (.openObject, cs)
  | '}' :: cs => some (.closeObject, cs)
  | ':' :: cs => some (.colon, cs)
  | ',' :: cs => some (.comma, cs)
  | '"' :: cs =>
    (scanString cs).map fun (units, rest) =>
      (.leaf (string ((stringOf? units).map String.ofList)), rest)
  | 'n' :: 'u' :: 'l' :: 'l' :: cs => some (.leaf null, cs)
  | 't' :: 'r' :: 'u' :: 'e' :: cs => some (.leaf (bool true), cs)
  | 'f' :: 'a' :: 'l' :: 's' :: 'e' :: cs => some (.leaf (bool false), cs)
  | cs => (scanNumber cs).map fun (j, rest) => (.leaf j, rest)

/-- An array or object that is still open, its parts in reverse; an object with the name of the
field whose value is being read. -/
inductive Opened where
  | array (items : List Json)
  | object (fields : List (Option String × Json)) (name : Option String)

/-- What has been read, and so what may come next. -/
inductive Reading where
  /-- A value is due. -/
  | value (opened : List Opened)
  /-- Behind an opening bracket: a value or the closing one. -/
  | firstItem (opened : List Opened)
  /-- Behind an item: a comma or the closing bracket. -/
  | afterItem (items : List Json) (opened : List Opened)
  /-- Behind an opening brace: a name or the closing one. -/
  | firstName (opened : List Opened)
  /-- Behind a comma: a name. -/
  | nextName (fields : List (Option String × Json)) (opened : List Opened)
  /-- Behind a name: a colon. -/
  | colon (fields : List (Option String × Json)) (name : Option String) (opened : List Opened)
  /-- Behind a field: a comma or the closing brace. -/
  | afterField (fields : List (Option String × Json)) (opened : List Opened)
  /-- The document is complete. -/
  | done (j : Json)

namespace Reading

/-- Puts a complete value where it belongs. -/
def deliver (j : Json) : List Opened → Reading
  | [] => done j
  | .array items :: opened => afterItem (j :: items) opened
  | .object fields name :: opened => afterField ((name, j) :: fields) opened

/-- The move of a token where a value is due. -/
def start (opened : List Opened) : Token → Option Reading
  | .leaf j => some (deliver j opened)
  | .openArray => some (firstItem opened)
  | .openObject => some (firstName opened)
  | _ => none

/-- The move of a token. -/
def step : Reading → Token → Option Reading
  | value opened, t => start opened t
  | firstItem opened, .closeArray => some (deliver (.array []) opened)
  | firstItem opened, t => start (.array [] :: opened) t
  | afterItem items opened, .comma => some (value (.array items :: opened))
  | afterItem items opened, .closeArray => some (deliver (.array items.reverse) opened)
  | firstName opened, .closeObject => some (deliver (.object []) opened)
  | firstName opened, .leaf (.string text) => some (colon [] text opened)
  | nextName fields opened, .leaf (.string text) => some (colon fields text opened)
  | colon fields key opened, .colon => some (value (.object fields key :: opened))
  | afterField fields opened, .comma => some (nextName fields opened)
  | afterField fields opened, .closeObject => some (deliver (.object fields.reverse) opened)
  | _, _ => none

/-- Reads on to the end of the text. Each turn takes a character at least, so that the number of
characters is enough fuel. -/
def run : Nat → Reading → List Char → Option Json
  | _, done j, [] => some j
  | _, _, [] => none
  | 0, _, _ => none
  | fuel + 1, reading, c :: cs =>
    if isGap c then run fuel reading cs
    else match scanToken (c :: cs) with
      | none => none
      | some (t, rest) =>
        match reading.step t with
        | none => none
        | some next => run fuel next rest

end Reading

/-- The document that a list of characters writes. -/
def ofChars? (cs : List Char) : Option Json :=
  Reading.run cs.length (.value []) cs

/-- The document that a text writes. -/
def parse? (text : String) : Option Json :=
  ofChars? text.toList

end Formula.Json
