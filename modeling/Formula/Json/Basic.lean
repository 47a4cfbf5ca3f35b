import Formula.Json.Number
/-!
JSON documents. A document is held as it was written: a number keeps its sign and a decimal, so that
it may lie beyond the range of doubles, and a text with half of a surrogate pair is kept as a text
that no string holds. Such a document can be passed over, but not read as data.
-/

namespace Formula

/-- A JSON document. A number without a fraction and an exponent is an integer, except for minus
zero and for those whose digits take more than 64 bits. A text is `none` if half of a surrogate pair
stands alone in it. -/
inductive Json where
  | null
  | bool (b : Bool)
  | integer (n : Int)
  | decimal (negative : Bool) (magnitude : Decimal)
  | string (text : Option String)
  | array (items : List Json)
  | object (fields : List (Option String × Json))
  deriving Inhabited

namespace Json

/-- How a document comes to its reader: straight from a text, within so many arrays and objects, or
held as a whole. What is not wanted is passed over in a text, but what is held has to be sound. -/
inductive Origin where
  | text (enclosing : Nat)
  | held
  deriving DecidableEq

/-- The most arrays and objects that may be open at a time in a document that is held as data. -/
def depthLimit : Nat := 127

/-- The number as a double, if it lies in their range. -/
def double? (j : Json) : Option Double :=
  let within (x : Double) : Option Double := if x.isFinite then some x else none
  match j with
  | integer n => within (Decimal.toDouble (n < 0) ⟨n.natAbs, 0⟩)
  | decimal negative d => within (scaled negative d)
  | _ => none

/-- The integer, if it lies between two others. -/
def intWithin? (low high : Int) : Json → Option Int
  | integer n => if low ≤ n ∧ n ≤ high then some n else none
  | _ => none

/-- The 64-bit integer. -/
def int64? (j : Json) : Option Int64 :=
  (j.intWithin? Int64.minValue.toInt Int64.maxValue.toInt).map Int64.ofInt

/-- The truth value. -/
def bool? : Json → Option Bool
  | bool b => some b
  | _ => none

/-- The text. -/
def string? : Json → Option String
  | string text => text
  | _ => none

/-- The items of an array. -/
def array? : Json → Option (List Json)
  | array items => some items
  | _ => none

/-- The fields of an object whose names are all texts. -/
def fields? : Json → Option (List (String × Json))
  | object fields => fields.mapM fun f => f.1.map (·, f.2)
  | _ => none

/-- The field `name`, which may be missing but not repeated. -/
def atMostOnce (name : String) (fields : List (String × Json)) : Option (Option Json) :=
  match fields.filter (·.1 == name) with
  | [] => some none
  | [f] => some (some f.2)
  | _ => none

/-- The field `name`, which must be there once. -/
def once? (name : String) (fields : List (String × Json)) : Option Json :=
  (atMostOnce name fields).join

/-- Whether a number is in range and a text is a string. -/
def isLeafSound : Json → Bool
  | string text => text.isSome
  | integer n => (double? (integer n)).isSome
  | decimal negative d => (double? (decimal negative d)).isSome
  | _ => true

mutual

/-- Whether the document can be held as data with `budget` more arrays and objects open. -/
def isSound (budget : Nat) : Json → Bool
  | array items => decide (0 < budget) && areSound (budget - 1) items
  | object fields => decide (0 < budget) && areFieldsSound (budget - 1) fields
  | j => j.isLeafSound

/-- Whether each item can be held as data. -/
def areSound (budget : Nat) : List Json → Bool
  | [] => true
  | j :: js => isSound budget j && areSound budget js

/-- Whether each field can be held as data. -/
def areFieldsSound (budget : Nat) : List (Option String × Json) → Bool
  | [] => true
  | (name, j) :: fs => name.isSome && isSound budget j && areFieldsSound budget fs

end

end Json

end Formula
