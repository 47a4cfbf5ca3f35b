import Formula.Decimal.Basic
import Formula.Decimal.Binary
/-!
The shortest decimal that reads back as a double: of all decimals in the range that rounds to it
one with the fewest digits, and of those the nearest. Beside it, the decimal with a fixed number of
digits nearest to the double.
-/

namespace Formula.Decimal

/-- Which of two equally near neighbours is taken. -/
inductive Tie where
  | up
  | even
  deriving DecidableEq, Repr

/-- An exponent of ten not below that of the first digit of `m · 2 ^ q`, and above it by two at
most: the decimal logarithm of two is 0.30103 and less. -/
def leadingBound (m : Nat) (q : Int) : Int :=
  (m.log2 + 1 + q) * 30103 / 100000 + 1

/-- The scales by which `c · 10 ^ e` and `v · 2 ^ q` are compared as whole numbers. -/
def scales (q e : Int) : Nat × Nat :=
  (Nat.pow 10 e.toNat * Nat.pow 2 (-q).toNat, Nat.pow 2 q.toNat * Nat.pow 10 (-e).toNat)

/-- The multiple of `10 ^ e` nearest to `m · 2 ^ q`, if it rounds to that double. The range that
does is counted in quarters of the last binary digit; it is shorter below a power of two, and its
ends belong to it if the mantissa is even. -/
def onGrid (tie : Tie) (m : Nat) (q e : Int) : Option Decimal :=
  let (a, b) := scales (q - 2) e
  let low := if m = Double.normalBit ∧ Binary.leastExponent < q then 4 * m - 1 else 4 * m - 2
  let high := 4 * m + 2
  let value := 4 * m * b
  let inside (c : Nat) : Bool :=
    if m % 2 = 0 then low * b ≤ c * a && c * a ≤ high * b
    else low * b < c * a && c * a < high * b
  let c := value / a
  let below := value - c * a
  let above := (c + 1) * a - value
  match inside c, inside (c + 1) with
  | true, false => some ⟨c, e⟩
  | false, true => some ⟨c + 1, e⟩
  | false, false => none
  | true, true =>
    if below < above then some ⟨c, e⟩
    else if above < below then some ⟨c + 1, e⟩
    else match tie with
      | .up => some ⟨c + 1, e⟩
      | .even => some ⟨c + c % 2, e⟩

/-- All the digits of `m · 2 ^ q`. -/
def exact (m : Nat) (q : Int) : Decimal :=
  if 0 ≤ q then ⟨m * Nat.pow 2 q.toNat, 0⟩ else ⟨m * Nat.pow 5 (-q).toNat, q⟩

/-- The shortest decimal that reads back as the double `m · 2 ^ q`, from the coarsest grid down. -/
def shortest (tie : Tie) (m : Nat) (q : Int) : Decimal :=
  if m = 0 then ⟨0, 0⟩
  else
    let grids := (List.range 20).map fun i => leadingBound m q - Int.ofNat i
    ((grids.findSome? (onGrid tie m q)).getD (exact m q)).normal

/-- The exponent of ten that the first digit of `m · 2 ^ q` stands for. -/
def leadingOf (m : Nat) (q : Int) : Int :=
  let top := leadingBound m q
  let reaches (e : Int) : Bool :=
    let (a, b) := scales q e
    a ≤ m * b
  (([0, 1, 2].map fun i => top - i).find? reaches).getD (top - 3)

/-- The decimal with `count + 1` digits nearest to `m · 2 ^ q`, the even one of two. -/
def rounded (count : Nat) (m : Nat) (q : Int) : Decimal :=
  let e := leadingOf m q - count
  let (a, b) := scales q e
  let c := Binary.roundDiv (m * b) a
  if c = Nat.pow 10 (count + 1) then ⟨Nat.pow 10 count, e + 1⟩ else ⟨c, e⟩

end Formula.Decimal
