import Formula.Decimal.Shortest
import Formula.Json.Basic
/-!
Writing JSON documents, without any white space. Real numbers are written with the fewest digits
that read back, and those that are not finite as null.
-/

namespace Formula.Json

/-- A hexadecimal digit. -/
def hexDigit (n : Nat) : Char :=
  if n < 10 then Char.ofNat ('0'.toNat + n) else Char.ofNat ('a'.toNat + (n - 10))

/-- A character of a text, escaped if it is a quote, a backslash or a control character. -/
def escape (c : Char) : List Char :=
  match c with
  | '"' => ['\\', '"']
  | '\\' => ['\\', '\\']
  | '\x08' => ['\\', 'b']
  | '\x0c' => ['\\', 'f']
  | '\n' => ['\\', 'n']
  | '\r' => ['\\', 'r']
  | '\t' => ['\\', 't']
  | c =>
    if c.toNat < 0x20 then
      ['\\', 'u', '0', '0', hexDigit (c.toNat / 16), hexDigit (c.toNat % 16)]
    else [c]

/-- A text between quotes; one that no string holds as half of a surrogate pair. -/
def quoted : Option String → List Char
  | some s => '"' :: s.toList.flatMap escape ++ ['"']
  | none => "\"\\ud800\"".toList

/-- A decimal: positional, with a fraction, where the first digit stands for a power of ten from
`10 ^ -5` up and below `10 ^ 16`, and otherwise scientific, with a sign in the exponent. -/
def decimalChars (d : Decimal) : List Char :=
  if -5 ≤ d.leading ∧ d.leading < 16 then
    d.whole ++ '.' :: (if d.fraction.isEmpty then ['0'] else d.fraction)
  else d.scientific (if d.leading < 0 then ['e'] else ['e', '+'])

/-- The document of a real number. -/
def ofDouble (x : Double) : Json :=
  match Binary.ofDouble x with
  | .finite negative m q => decimal negative (Decimal.shortest .even m q)
  | _ => null

/-- The document of a text. -/
def ofString (s : String) : Json :=
  string (some s)

/-- The document of an object with given names. -/
def ofFields (fields : List (String × Json)) : Json :=
  object (fields.map fun f => (some f.1, f.2))

mutual

/-- The characters of a document, with others behind them. -/
def chars (j : Json) (rest : List Char) : List Char :=
  match j with
  | null => "null".toList ++ rest
  | bool b => (if b then "true".toList else "false".toList) ++ rest
  | integer n => (toString n).toList ++ rest
  | decimal negative d => (if negative then ['-'] else []) ++ decimalChars d ++ rest
  | string text => quoted text ++ rest
  | array items => '[' :: itemChars items (']' :: rest)
  | object fields => '{' :: fieldChars fields ('}' :: rest)

/-- The characters of items with commas between them, with others behind them. -/
def itemChars (items : List Json) (rest : List Char) : List Char :=
  match items with
  | [] => rest
  | [j] => chars j rest
  | j :: js => chars j (',' :: itemChars js rest)

/-- The characters of fields with commas between them, with others behind them. -/
def fieldChars (fields : List (Option String × Json)) (rest : List Char) : List Char :=
  match fields with
  | [] => rest
  | [(name, j)] => quoted name ++ ':' :: chars j rest
  | (name, j) :: fs => quoted name ++ ':' :: chars j (',' :: fieldChars fs rest)

end

/-- The text of a document. -/
def render (j : Json) : String :=
  String.ofList (j.chars [])

end Formula.Json
