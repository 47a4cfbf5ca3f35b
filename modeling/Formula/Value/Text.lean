import Formula.Decimal.Text
import Formula.Value.Basic
/-!
The texts of values.
-/

namespace Formula

/-- A complex number: its real part, then its imaginary part behind its sign. -/
def Complex.text (z : Complex) : String :=
  let magnitude (x : Double) : String := Decimal.plainText (if x.lt 0 then -x else x)
  (if z.re.lt 0 then "-" else "") ++ magnitude z.re ++
  (if z.im.lt 0 then "-" else "+") ++ magnitude z.im ++ "i"

/-- An interval: its ends in brackets. -/
def Interval.text (a : Interval Double) : String :=
  if a.isDefined then "[" ++ Decimal.plainText a.lo ++ ", " ++ Decimal.plainText a.hi ++ "]"
  else "[undefined]"

/-- A range of truth values: its ends in brackets. -/
def BoolInterval.text (b : BoolInterval) : String :=
  if b.isDefined then "[" ++ toString b.lo ++ ", " ++ toString b.hi ++ "]" else "[undefined]"

/-- The text of a value. -/
def Value.text : Value → String
  | bool b => toString b
  | int n => toString n.toInt
  | real x => Decimal.plainText x
  | complex z => z.text
  | interval a => a.text
  | boolInterval b => b.text

end Formula
