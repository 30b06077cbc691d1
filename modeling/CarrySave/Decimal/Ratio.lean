/-
Module: CarrySave.Decimal.Ratio
Layer: Numbers
Purpose: The ratio of two integers of any size as the nearest double-precision number.
Main exports: logFloor, ratio?
-/
import CarrySave.Decimal.Binary64
import CarrySave.Decimal.Rounding

namespace CarrySave.Decimal

/-- The largest `e` with `2 ^ e ≤ numerator / denominator`, for positive arguments. -/
def logFloor (numerator denominator : Nat) : Int :=
  let estimate : Int := (numerator.log2 : Int) - denominator.log2
  let reached := denominator * Nat.pow 2 estimate.toNat ≤ numerator * Nat.pow 2 (-estimate).toNat
  if reached then estimate else estimate - 1

/-- The double nearest to the quotient of two natural numbers, with a sign put on it, or
`none` when it lies beyond the finite range.  The quotient is measured in the unit that
leaves fifty-three bits of it, or in the least unit there is when it is too small for
that, and rounded once. -/
def ratioOfMagnitudes? (negative : Bool) (numerator denominator : Nat) : Option Binary64 :=
  if numerator = 0 then
    Binary64.ofParts negative 0 0
  else
    let unit := max (logFloor numerator denominator - Binary64.fractionBits)
      Binary64.leastExponent
    let coefficient :=
      roundQuotient (numerator * Nat.pow 2 (-unit).toNat) (denominator * Nat.pow 2 unit.toNat)
    Binary64.ofParts negative coefficient (unit - Binary64.leastExponent).toNat

/-- The double nearest to `numerator / denominator`, or `none` when it lies beyond the
finite range.  The sign is that of the operands also when the result is zero. -/
def ratio? (numerator denominator : Int) : Option Binary64 :=
  ratioOfMagnitudes? (decide (numerator < 0) != decide (denominator < 0))
    numerator.natAbs denominator.natAbs

example : ratio? 1 3 = some ⟨0x3fd5555555555555⟩ := by decide +kernel

end CarrySave.Decimal
