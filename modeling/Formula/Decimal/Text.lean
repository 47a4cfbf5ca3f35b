import Formula.Decimal.Shortest
/-!
The text of a double, in the three notations used here: positional, scientific, and scientific with
a fixed number of digits. All but the last write the shortest digits that read back.
-/

namespace Formula.Decimal

/-- Writes a double: the words for its special values, and a notation for its magnitude. -/
def write (zero : String) (layout : Nat → Int → List Char) (x : Double) : String :=
  let signed (negative : Bool) (s : String) : String := if negative then "-" ++ s else s
  match Binary.ofDouble x with
  | .nan => "NaN"
  | .infinite negative => signed negative "inf"
  | .finite negative m q =>
    signed negative (if m = 0 then zero else String.ofList (layout m q))

/-- The text of a real number: positional, however large or small it is. -/
def plainText : Double → String :=
  write "0" fun m q => (shortest .up m q).positional

/-- The text of a real number with one digit before the point and an exponent. -/
def scientificText : Double → String :=
  write "0e0" fun m q => (shortest .up m q).scientific ['e']

/-- The text of a real number with `count` digits after the point and an exponent. -/
def roundedText (count : Nat) : Double → String :=
  write "0e0" fun m q => (rounded count m q).scientific ['e']

end Formula.Decimal
