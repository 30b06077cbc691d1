/-
Module: CarrySave.Decimal.Rounding
Layer: Numbers
Purpose: Rounding of an exact quotient to the nearest integer, a half going to the even
  neighbour.
Main exports: roundQuotient
-/
namespace CarrySave.Decimal

/-- The integer nearest to `numerator / denominator`; of two equally near, the even one. -/
def roundQuotient (numerator denominator : Nat) : Nat :=
  let floor := numerator / denominator
  let twice := 2 * (numerator % denominator)
  if denominator < twice || (twice == denominator && floor % 2 == 1) then floor + 1
  else floor

example : roundQuotient 9 2 = 4 ∧ roundQuotient 11 2 = 6 := by decide

end CarrySave.Decimal
