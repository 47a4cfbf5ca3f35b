import Formula.Proofs.Interval.Flags
/-!
What the power of ranges is, by the range of exponents: that of a single exponent if there is one
and it is not too great, and otherwise everything.
-/

namespace Formula.Interval

open Endpoint

variable {α : Type} [Endpoint α] {a b : Interval α} {info : UInt8} {n : Int}

/-- The integer that a range holds, if it holds nothing else. -/
def single? (b : Interval α) : Option Int :=
  if eq b.lo b.hi then Endpoint.toInt? b.lo else none

theorem toInt?_of_single? (single : single? b = some n) : Endpoint.toInt? b.lo = some n := by
  unfold single? at single
  split at single
  · exact single
  · cases single

theorem powInt_of_not_neg {n : Int32} (hn : ¬n < 0) : powInt a n = powNat a n.toInt.toNat := by
  rw [powInt, if_neg hn, powNat]
  split <;> rfl

theorem powInt_of_nonneg (hzero : 0 ≤ n) (hn : n ≤ Interval.greatestExponent) :
    powInt a (Int32.ofInt n) = powNat a n.toNat := by
  have hlimit : Interval.greatestExponent = 2 ^ 31 - 1 := rfl
  have htoInt : (Int32.ofInt n).toInt = n := Int32.toInt_ofInt_of_le (by omega) (by omega)
  have hneg : ¬ Int32.ofInt n < 0 := by
    rw [Int32.lt_iff_toInt_lt, htoInt]
    exact Int.not_lt.2 hzero
  rw [powInt_of_not_neg hneg, htoInt]

section Shared

variable (shared : common a b = some info)

include shared

theorem pow_of_single (single : single? b = some n) (small : n.natAbs ≤ Interval.greatestExponent)
    (defined : (powInt a (Int32.ofInt n)).isDefined = true) : pow a b =
      { powInt a (Int32.ofInt n) with info := (powInt a (Int32.ofInt n)).info &&& info } := by
  change (if eq b.lo b.hi then Endpoint.toInt? b.lo else none) = some n at single
  rw [pow, shared]
  simp only [single, if_neg (Nat.not_lt.2 small), if_pos defined]

theorem pow_of_great (single : single? b = some n) (great : Interval.greatestExponent < n.natAbs) :
    pow a b = everything := by
  change (if eq b.lo b.hi then Endpoint.toInt? b.lo else none) = some n at single
  rw [pow, shared]
  simp only [single, if_pos great]

/-- With a natural exponent the flags are those that are shared. -/
theorem pow_of_nonneg (single : single? b = some n) (hzero : 0 ≤ n)
    (small : n ≤ Interval.greatestExponent) :
    pow a b = { powNat a n.toNat with info := a.info &&& info } := by
  have hdefined := (isDefined_of_common shared).1
  have hpower := powInt_of_nonneg (a := a) hzero small
  have hinfo := info_powNat hdefined n.toNat
  have hpower' : (powInt a (Int32.ofInt n)).isDefined = true := by
    rw [hpower, isDefined_eq_true, hinfo]
    exact isDefined_eq_true.1 hdefined
  rw [pow_of_single shared single (by omega) hpower', hpower, hinfo]

theorem intPow_of_many (many : single? b = none) : intPow a b = everything := by
  change (if eq b.lo b.hi then Endpoint.toInt? b.lo else none) = none at many
  rw [intPow, shared]
  simp only [many]

theorem intPow_of_nonneg (single : single? b = some n) (hzero : Endpoint.le (ofInt 0) b.lo = true) :
    intPow a b = pow a b := by
  change (if eq b.lo b.hi then Endpoint.toInt? b.lo else none) = some n at single
  rw [intPow, shared]
  simp only [single, if_pos hzero]

/-- With a negative exponent all is said by the hull of the powers that there are. -/
theorem intPow_of_neg (single : single? b = some n) (hzero : Endpoint.le (ofInt 0) b.lo = false)
    {r : Interval α} (hr : hull (truncatedPowers a (n % 2 = 0)) info = r) : intPow a b =
      if lt r.hi r.lo then undefined
      else if eq r.lo r.hi then r
      else { r with info := info &&& ~~~Info.continuous } := by
  change (if eq b.lo b.hi then Endpoint.toInt? b.lo else none) = some n at single
  rw [intPow, shared]
  simp only [single, hzero, hr, Bool.false_eq_true, if_false]

end Shared

end Formula.Interval
