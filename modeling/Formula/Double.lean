/-!
Double precision numbers, by their bits: a sign and a magnitude. Magnitudes up to `infinityBits`
stand for numbers in their order, and those above it for no number. Arithmetic is that of the
machine; an operand that is not a number is itself the result, with its sign.
-/

namespace Formula

/-- A double precision number. Two are the same if all their bits are, so that there are two zeros
and what is not a number has a sign. -/
structure Double where
  bits : UInt64
  deriving DecidableEq, Repr

namespace Double

/-- Bits of the mantissa that are stored. -/
def storedBits : Nat := 52

/-- The mantissa bit above those that are stored. -/
def normalBit : Nat := Nat.pow 2 storedBits

/-- The magnitude of the infinities. -/
def infinityBits : Nat := 2047 * normalBit

/-- The bit of the sign. -/
def signBit : Nat := Nat.pow 2 63

/-- The double with a sign and a magnitude. -/
def ofMagnitude (negative : Bool) (magnitude : Nat) : Double :=
  ⟨UInt64.ofNat (if negative then magnitude + signBit else magnitude)⟩

/-- Positive infinity. -/
def infinity : Double :=
  ofMagnitude false infinityBits

/-- What is not a number, with a sign. -/
def notNumber (negative : Bool) : Double :=
  ofMagnitude negative (infinityBits + normalBit / 2)

/-- The power of two with an exponent that a double has without loss. -/
def twoTo (k : Int) : Double :=
  ofMagnitude false ((1023 + k).toNat * normalBit)

/-- The double that the machine holds. -/
def ofFloat (x : Float) : Double :=
  ⟨x.toBits⟩

/-- The nearest double to an integer. -/
def ofInt (n : Int) : Double :=
  ofFloat (Float.ofInt n)

instance (n : Nat) : OfNat Double n := ⟨ofInt n⟩

instance : Inhabited Double := ⟨0⟩

/-- The double as the machine holds it. -/
def toFloat (x : Double) : Float :=
  Float.ofBits x.bits

/-- Whether the sign is a minus. -/
def isNegative (x : Double) : Bool :=
  decide (signBit ≤ x.bits.toNat)

/-- The magnitude. -/
def magnitude (x : Double) : Nat :=
  x.bits.toNat % signBit

/-- Whether the double is not a number. -/
def isNaN (x : Double) : Bool :=
  decide (infinityBits < x.magnitude)

/-- Whether the double is an infinity. -/
def isInfinite (x : Double) : Bool :=
  x.magnitude == infinityBits

/-- Whether the double is a finite number. -/
def isFinite (x : Double) : Bool :=
  decide (x.magnitude < infinityBits)

/-- A number by which doubles are ordered as they are; that of both zeros is zero. -/
def rank (x : Double) : Int :=
  if x.isNegative then -(x.magnitude : Int) else x.magnitude

/-- A relation between numbers, which does not hold for what is not a number. -/
def related (r : Int → Int → Bool) (x y : Double) : Bool :=
  !x.isNaN && !y.isNaN && r x.rank y.rank

/-- Whether two numbers are equal. -/
def eq : Double → Double → Bool :=
  related fun m n => m == n

/-- Whether two numbers differ. What is not a number differs from everything. -/
def ne (x y : Double) : Bool :=
  x.isNaN || y.isNaN || x.rank != y.rank

/-- To differ is not to be equal, also for what is not a number. -/
@[simp] theorem ne_eq_not_eq (x y : Double) : x.ne y = !x.eq y := by
  simp [ne, eq, related, bne]

/-- Whether one number is below another. -/
def lt : Double → Double → Bool :=
  related fun m n => decide (m < n)

/-- Whether one number is below or equal to another. -/
def le : Double → Double → Bool :=
  related fun m n => decide (m ≤ n)

/-- An operation of the machine on one number. -/
def lift (f : Float → Float) (x : Double) : Double :=
  if x.isNaN then x else ofFloat (f x.toFloat)

/-- An operation of the machine on two numbers. -/
def lift₂ (f : Float → Float → Float) (x y : Double) : Double :=
  if x.isNaN then x else if y.isNaN then y else ofFloat (f x.toFloat y.toFloat)

instance : Add Double := ⟨lift₂ (· + ·)⟩
instance : Sub Double := ⟨lift₂ (· - ·)⟩
instance : Mul Double := ⟨lift₂ (· * ·)⟩
instance : Div Double := ⟨lift₂ (· / ·)⟩
instance : Neg Double := ⟨fun x => ofMagnitude (!x.isNegative) x.magnitude⟩

/-- The absolute value. -/
def abs (x : Double) : Double :=
  ofMagnitude false x.magnitude

/-- The number without what stands behind the point, where one that is not finite has nothing. -/
def trunc (x : Double) : Double :=
  let exponent := x.magnitude / normalBit
  let unit := Nat.pow 2 (1023 + storedBits - exponent)
  ofMagnitude x.isNegative (if exponent < 1023 then 0 else x.magnitude / unit * unit)

/-- What stands behind the point of a number. -/
def fract (x : Double) : Double :=
  x - x.trunc

/-- The square root. -/
def sqrt : Double → Double :=
  lift Float.sqrt

/-- The exponential. -/
def exp : Double → Double :=
  lift Float.exp

/-- The natural logarithm. -/
def ln : Double → Double :=
  lift Float.log

/-- The sine. -/
def sin : Double → Double :=
  lift Float.sin

/-- The cosine. -/
def cos : Double → Double :=
  lift Float.cos

/-- The tangent. -/
def tan : Double → Double :=
  lift Float.tan

/-- The angle of the point `(x, y)`. -/
def atan2 (y x : Double) : Double :=
  lift₂ Float.atan2 y x

/-- The power. With exponent zero or base one it is one, even if the other is not a number. -/
def pow (x y : Double) : Double :=
  ofFloat (Float.pow x.toFloat y.toFloat)

end Double

end Formula
