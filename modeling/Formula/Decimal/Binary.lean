import Formula.Double
/-!
What the bits of a double stand for, and the double nearest to a fraction.
-/

namespace Formula

/-- The number a double stands for: `mantissa · 2 ^ exponent` with a sign, an infinity, or none. -/
inductive Binary where
  | nan
  | infinite (negative : Bool)
  | finite (negative : Bool) (mantissa : Nat) (exponent : Int)
  deriving DecidableEq, Repr, Inhabited

namespace Binary

open Double (storedBits normalBit infinityBits)

/-- The exponent of the least positive double. -/
def leastExponent : Int := -1074

/-- The number a double stands for. -/
def ofDouble (x : Double) : Binary :=
  let field := x.magnitude / normalBit
  let stored := x.magnitude % normalBit
  if x.isNaN then .nan
  else if x.isInfinite then .infinite x.isNegative
  else if field = 0 then .finite x.isNegative stored leastExponent
  else .finite x.isNegative (stored + normalBit) (leastExponent + (field - 1))

/-- The whole number nearest to `num / den`, the even one of two. -/
def roundDiv (num den : Nat) : Nat :=
  let whole := num / den
  let rest := num % den
  if 2 * rest < den then whole
  else if den < 2 * rest then whole + 1
  else whole + whole % 2

/-- The magnitude of the double nearest to `num / den`, the even one of two. The fraction is counted
in units of the least positive double, and a mantissa that rounds up to the next power of two
carries into the exponent. -/
def nearest (num den : Nat) : Nat :=
  let units := num * Nat.pow 2 1074
  let shift := (units / den).log2 - storedBits
  min (shift * normalBit + roundDiv units (den * Nat.pow 2 shift)) infinityBits

/-- The integer a double stands for, if it stands for one. -/
def toInt? : Binary → Option Int
  | .finite negative m q =>
    let magnitude? :=
      if m = 0 then some 0
      else if 0 ≤ q then some (m * Nat.pow 2 q.toNat)
      else if m % Nat.pow 2 (-q).toNat = 0 then some (m / Nat.pow 2 (-q).toNat)
      else none
    magnitude?.map fun n : Nat => if negative then -(n : Int) else n
  | _ => none

end Binary

end Formula
