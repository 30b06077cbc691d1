/-
Module: CarrySave.Proofs.Decimal.Range
Layer: Proofs
Purpose: Ratios within the range of doubles.  A quotient is smaller than the power of two above its
  logarithm, so in the unit that leaves fifty-three bits of it the coefficient has no more than these,
  or is the power of two just above them.  A quotient that is not too large is therefore never refused.
Main exports: Decimal.roundQuotient_le, Decimal.lt_two_zpow_iff, Decimal.lt_two_zpow_logFloor,
  Decimal.logFloor_le, Decimal.exists_ratio
-/
import CarrySave.Decimal.Ratio
import Mathlib.Algebra.Order.Field.Power
import Mathlib.Algebra.Order.Field.Rat
import Mathlib.Tactic.Ring

namespace CarrySave.Decimal

/-- A quotient below a natural number is rounded to at most that number. -/
theorem roundQuotient_le {numerator denominator bound : Nat}
    (below : numerator < bound * denominator) : roundQuotient numerator denominator ≤ bound := by
  have floor : numerator / denominator < bound :=
    Nat.div_lt_of_lt_mul (by rwa [Nat.mul_comm])
  simp only [roundQuotient]
  split <;> omega

/-! ### Powers of two with integer exponents -/

/-- A power of two with any exponent as a quotient of two natural powers. -/
theorem two_zpow_mul (exponent : Int) :
    (2 : ℚ) ^ exponent * 2 ^ (-exponent).toNat = 2 ^ exponent.toNat := by
  rcases le_total 0 exponent with positive | negative
  · obtain ⟨n, rfl⟩ := Int.eq_ofNat_of_zero_le positive
    simp
  · obtain ⟨n, split⟩ := Int.eq_ofNat_of_zero_le (Int.neg_nonneg.mpr negative)
    obtain rfl : exponent = -n := by omega
    simp

/-- A quotient is compared with a power of two without dividing. -/
theorem lt_two_zpow_iff {numerator denominator : Nat} {exponent : Int} :
    numerator * 2 ^ (-exponent).toNat < denominator * 2 ^ exponent.toNat ↔
      (numerator : ℚ) < denominator * 2 ^ exponent := by
  have scale : (0 : ℚ) < 2 ^ (-exponent).toNat := pow_pos two_pos _
  rw [← mul_lt_mul_iff_left₀ scale, mul_assoc, two_zpow_mul]
  exact_mod_cast Iff.rfl

/-! ### The logarithm of a quotient -/

section Logarithm

variable {numerator denominator : Nat}

/-- A quotient is smaller than the power of two above its logarithm. -/
theorem lt_two_zpow_logFloor (positive : denominator ≠ 0) :
    (numerator : ℚ) < denominator * 2 ^ (logFloor numerator denominator + 1) := by
  simp only [logFloor]
  split
  case isTrue =>
    have above : (numerator : ℚ) < 2 ^ (numerator.log2 + 1) := by
      exact_mod_cast Nat.lt_log2_self
    have below : (2 : ℚ) ^ denominator.log2 ≤ denominator := by
      exact_mod_cast Nat.log2_self_le positive
    calc (numerator : ℚ)
        < 2 ^ (numerator.log2 + 1) := above
      _ = 2 ^ denominator.log2 * 2 ^ ((numerator.log2 : Int) - denominator.log2 + 1) := by
          rw [← zpow_natCast, ← zpow_natCast, ← zpow_add₀ two_ne_zero]
          congr 1
          push_cast
          ring
      _ ≤ denominator * 2 ^ ((numerator.log2 : Int) - denominator.log2 + 1) := by gcongr
  case isFalse missed =>
    rw [Int.sub_add_cancel]
    exact lt_two_zpow_iff.mp (Nat.lt_of_not_le missed)

/-- The logarithm of a quotient up to a power of two is at most that of the power. -/
theorem logFloor_le {bound : Nat} (positive : numerator ≠ 0)
    (le : numerator ≤ denominator * 2 ^ bound) : logFloor numerator denominator ≤ bound := by
  have below : numerator < 2 ^ (denominator.log2 + 1 + bound) := by
    rw [Nat.pow_add]
    exact Nat.lt_of_le_of_lt le
      (Nat.mul_lt_mul_of_pos_right Nat.lt_log2_self (Nat.two_pow_pos bound))
  have logs := (Nat.log2_lt positive).mpr below
  simp only [logFloor]
  split <;> omega

end Logarithm

/-! ### Ratios -/

/-- Parts within the finite range make a number. -/
theorem exists_ofParts (negative : Bool) {coefficient steps : Nat}
    (inside : steps * Binary64.leadingBit + coefficient < Binary64.topField * Binary64.leadingBit) :
    ∃ value, Binary64.ofParts negative coefficient steps = some value := by
  rw [Binary64.ofParts, if_pos inside]
  exact ⟨_, rfl⟩

/-- The coefficient of a quotient has at most fifty-three bits, or is the power of two just above
them. -/
theorem roundQuotient_unit_le (numerator : Nat) {denominator : Nat} {unit : Int}
    (positive : denominator ≠ 0)
    (coarse : logFloor numerator denominator - Binary64.fractionBits ≤ unit) :
    roundQuotient (numerator * Nat.pow 2 (-unit).toNat) (denominator * Nat.pow 2 unit.toNat) ≤
      2 ^ 53 := by
  apply roundQuotient_le
  rw [← Nat.mul_assoc]
  refine lt_two_zpow_iff.mpr ?_
  have higher : logFloor numerator denominator + 1 ≤ 53 + unit := by
    simp only [Binary64.fractionBits] at coarse
    omega
  calc (numerator : ℚ)
      < denominator * 2 ^ (logFloor numerator denominator + 1) := lt_two_zpow_logFloor positive
    _ ≤ denominator * 2 ^ (53 + unit) :=
        mul_le_mul_of_nonneg_left (zpow_le_zpow_right₀ one_le_two higher) (Nat.cast_nonneg _)
    _ = ((2 ^ 53 * denominator : Nat) : ℚ) * 2 ^ unit := by
        rw [zpow_add₀ two_ne_zero]
        push_cast
        ring

/-- A quotient that is not beyond half of the largest power of two has a ratio. -/
theorem exists_ratio {numerator denominator bound : Nat} (positive : denominator ≠ 0)
    (le : numerator ≤ denominator * 2 ^ bound) (inRange : bound ≤ 1022) :
    ∃ value, ratio? numerator denominator = some value := by
  simp only [ratio?, ratioOfMagnitudes?, Int.natAbs_natCast]
  split
  case isTrue => exact exists_ofParts _ (by decide)
  case isFalse nonzero =>
    have logarithm := logFloor_le nonzero le
    apply exists_ofParts
    have coefficient := roundQuotient_unit_le numerator positive
      (le_max_left _ Binary64.leastExponent)
    simp only [Binary64.fractionBits, Binary64.leastExponent, Binary64.leadingBit,
      Binary64.topField] at logarithm coefficient ⊢
    omega

end CarrySave.Decimal
