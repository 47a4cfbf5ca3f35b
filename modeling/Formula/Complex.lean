import Formula.Double
/-!
Complex numbers with parts of double precision.
-/

namespace Formula

/-- The complex number `re + im · i`. -/
structure Complex where
  re : Double
  im : Double
  deriving DecidableEq

namespace Complex

/-- The sum. -/
def add (a b : Complex) : Complex :=
  ⟨a.re + b.re, a.im + b.im⟩

/-- The difference. -/
def sub (a b : Complex) : Complex :=
  ⟨a.re - b.re, a.im - b.im⟩

/-- The product. -/
def mul (a b : Complex) : Complex :=
  ⟨a.re * b.re - a.im * b.im, a.re * b.im + a.im * b.re⟩

/-- The quotient: the product with the conjugate of the divisor, over its squared length. -/
def div (a b : Complex) : Complex :=
  let n := b.re * b.re + b.im * b.im
  ⟨(a.re * b.re + a.im * b.im) / n, (a.im * b.re - a.re * b.im) / n⟩

/-- The negative. -/
def neg (a : Complex) : Complex :=
  ⟨-a.re, -a.im⟩

/-- The root of the sum of the squares of `a` and `b`, with `a` not below `b`. What the root is too
great by is taken off: as a square, that is what its square exceeds the sum by, in a form in which
little is lost, and so it is divided by twice the root. -/
def rootOfSquares (a b : Double) : Double :=
  let h := (a * a + b * b).sqrt
  let excess :=
    if h.le (2 * b) then
      let d := h - b
      a * (2 * d - a) + (d - 2 * (a - b)) * d
    else
      let d := h - a
      2 * d * (a - 2 * b) + ((4 * d - b) * b + d * d)
  h - excess / (2 * h)

/-- The length of the pair of parts. An infinite part makes it infinite, whatever the other is. Long
and short pairs are scaled, so that no square leaves the range, and a part that is too small to
count is added. -/
def norm (z : Complex) : Double :=
  let x := z.re.abs
  let y := z.im.abs
  let (a, b) := if x.lt y then (y, x) else (x, y)
  let scaled (k : Int) : Double := rootOfSquares (a * .twoTo k) (b * .twoTo k) * .twoTo (-k)
  if x.isInfinite || y.isInfinite then .infinity
  else if x.isNaN || y.isNaN then x + y
  else if (Double.twoTo 511).lt a then if b.le (a * .twoTo (-54)) then a + b else scaled (-600)
  else if b.lt (.twoTo (-459)) then if (b * .twoTo 54).le a then a + b else scaled 600
  else if b.le (a * .twoTo (-54)) then a + b
  else rootOfSquares a b

/-- The angle to the positive real axis. -/
def arg (a : Complex) : Double :=
  Double.atan2 a.im a.re

/-- The exponential: the number with a given length and angle. At an infinite length the angle
counts only if it is a proper one. -/
def exp (a : Complex) : Complex :=
  let polar : Complex := ⟨a.re.exp * a.im.cos, a.re.exp * a.im.sin⟩
  if a.re.isInfinite then
    if a.re.isNegative then
      if a.im.isFinite then polar else ⟨0, 0⟩
    else if a.im.eq 0 || !a.im.isFinite then
      ⟨a.re, if a.im.isInfinite then .notNumber false else a.im⟩
    else polar
  else if a.re.isNaN && a.im.eq 0 then a
  else polar

/-- The principal logarithm. -/
def ln (a : Complex) : Complex :=
  ⟨a.norm.ln, a.arg⟩

/-- The power with a complex exponent; with exponent zero it is one, whatever the base. -/
def pow (a b : Complex) : Complex :=
  if b.re.eq 0 && b.im.eq 0 then ⟨1, 0⟩ else (mul b (ln a)).exp

end Complex

end Formula
