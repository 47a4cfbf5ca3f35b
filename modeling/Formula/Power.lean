import Formula.Double
/-!
Powers by repeated squaring, for any multiplication; of doubles and of 64-bit integers with the
exponents that the two kinds of number allow.
-/

namespace Formula

/-- Multiplies `acc` by the power `k` of `base`, a binary digit of `k` at a time. -/
def powerOnto {α : Type} [Mul α] : Nat → α → α → Nat → α
  | 0, acc, _, _ => acc
  | fuel + 1, acc, base, k =>
    let acc := if k % 2 = 1 then acc * base else acc
    if k / 2 = 0 then acc else powerOnto fuel acc (base * base) (k / 2)

/-- The power `k` of `base`, where `one` is the power zero. -/
def power {α : Type} [Mul α] (one base : α) (k : Nat) : α :=
  powerOnto (k.log2 + 1) one base k

/-- The power of a double with an integer exponent: a negative one inverts the positive power. -/
def realPower (base : Double) (n : Int) : Double :=
  let r := power 1 base n.natAbs
  if n < 0 then 1 / r else r

/-- The greatest exponent that a power of 64-bit integers is taken with. -/
def greatestExponent : Nat := Nat.pow 2 32 - 1

/-- The power of a 64-bit integer, modulo `2 ^ 64`. A negative exponent truncates toward zero, as
division of integers does: one and minus one keep their powers, and the others have none but
zero. -/
def truncatedPower (base exponent : Int64) : Int64 :=
  let n := exponent.toInt
  if 0 ≤ n then power 1 base (min n.toNat greatestExponent)
  else if base = 1 then 1
  else if base = -1 then if n % 2 = 0 then 1 else -1
  else 0

end Formula
