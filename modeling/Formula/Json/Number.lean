import Formula.Decimal.Reader
/-!
Numbers in JSON texts. The digits are gathered into a mantissa of 64 bits, as many as fit, and the
double of the mantissa is multiplied or divided by the double of a power of ten. Each step rounds,
so that the double read is near the number written, but not always the nearest one.
-/

namespace Formula.Json

/-- The greatest mantissa. -/
def greatestMantissa : Nat := Nat.pow 2 64 - 1

/-- Appends digits to a mantissa, up to the first that makes it too great, and counts them. -/
def gather (m : Nat) : List Char → Nat × Nat
  | [] => (m, 0)
  | c :: cs =>
    let next := 10 * m + Decimal.digitValue c
    if greatestMantissa < next then (m, 0)
    else
      let (m, count) := gather next cs
      (m, count + 1)

/-- The decimal that is kept of a number. Digits before the point that are not gathered count as
zeros, those behind it as nothing. -/
def kept (whole fraction : List Char) (exponent : Int) : Decimal :=
  let (m, before) := gather 0 whole
  let (m, behind) := gather m fraction
  ⟨m, exponent + (whole.length - before : Nat) - behind⟩

/-- The greatest power of ten that is a double. -/
def greatestTen : Nat := 308

/-- The double nearest to a power of ten. -/
def tenTo (k : Nat) : Double :=
  Decimal.toDouble false ⟨1, k⟩

/-- The double that a number is read as, an infinity if it is too great. The divisor may have more
places than any double has; then the division takes two steps, which leave nothing of a number
with more places than both. -/
def scaled (negative : Bool) (d : Decimal) : Double :=
  let m := Decimal.toDouble false ⟨d.mantissa, 0⟩
  let places := (-d.exponent).toNat
  let magnitude :=
    if d.mantissa = 0 then m
    else if 0 ≤ d.exponent then m * tenTo d.exponent.toNat
    else if places ≤ greatestTen then m / tenTo places
    else m / tenTo greatestTen / tenTo (min (places - greatestTen) greatestTen)
  if negative then -magnitude else magnitude

end Formula.Json
