/-
Module: CarrySave.Proofs.Signal.Fields
Layer: Proofs
Purpose: Numbers cut into fields of bits.  The fields of given widths, lowest first, of the numbers
  below the power of two of all widths together run through all tuples of numbers that fit the
  widths, each exactly once.  Giving groups of wires the fields of a number is giving all wires
  the bits of the number.
Main exports: bitFields, Fit, existsUnique_bitFields, bitEntries_append, ofOperands_bitFields
-/
import CarrySave.Proofs.Signal.Binding
import Mathlib.Data.List.Forall2
import Mathlib.Data.Nat.Bitwise

namespace CarrySave

/-- The bits of a number in fields of given widths, lowest first. -/
def bitFields : List Nat → Nat → List Nat
  | [], _ => []
  | width :: widths, number => number % 2 ^ width :: bitFields widths (number / 2 ^ width)

example : bitFields [2, 0, 3] 0b11001 = [0b01, 0, 0b110] := by decide

/-- Numbers fit into fields of given widths. -/
def Fit (widths numbers : List Nat) : Prop :=
  List.Forall₂ (fun width number => number < 2 ^ width) widths numbers

theorem fit_bitFields (widths : List Nat) (number : Nat) : Fit widths (bitFields widths number) := by
  induction widths generalizing number with
  | nil => exact .nil
  | cons width widths inductionHypothesis =>
      exact .cons (Nat.mod_lt _ (Nat.two_pow_pos width)) (inductionHypothesis _)

@[simp] theorem length_bitFields (widths : List Nat) (number : Nat) :
    (bitFields widths number).length = widths.length :=
  (fit_bitFields widths number).length_eq.symm

/-- A number is made of its fields. -/
theorem bitFields_injective {widths : List Nat} {one other : Nat} (oneLt : one < 2 ^ widths.sum)
    (otherLt : other < 2 ^ widths.sum) (same : bitFields widths one = bitFields widths other) :
    one = other := by
  induction widths generalizing one other with
  | nil =>
      rw [List.sum_nil, pow_zero] at oneLt otherLt
      omega
  | cons width widths inductionHypothesis =>
      rw [List.sum_cons, pow_add] at oneLt otherLt
      obtain ⟨low, high⟩ := List.cons.inj same
      have sameHigh := inductionHypothesis (Nat.div_lt_of_lt_mul oneLt)
        (Nat.div_lt_of_lt_mul otherLt) high
      rw [← Nat.div_add_mod one (2 ^ width), ← Nat.div_add_mod other (2 ^ width), sameHigh, low]

/-- Numbers that fit are the fields of some number. -/
theorem exists_bitFields_eq {widths numbers : List Nat} (fit : Fit widths numbers) :
    ∃ number, number < 2 ^ widths.sum ∧ bitFields widths number = numbers := by
  induction fit with
  | nil => exact ⟨0, by simp, rfl⟩
  | @cons width low widths numbers below _ inductionHypothesis =>
      obtain ⟨high, highLt, fields⟩ := inductionHypothesis
      refine ⟨low + 2 ^ width * high, ?_, ?_⟩
      · calc low + 2 ^ width * high < 2 ^ width + 2 ^ width * high := by omega
          _ = 2 ^ width * (high + 1) := by ring
          _ ≤ 2 ^ width * 2 ^ widths.sum := Nat.mul_le_mul_left _ highLt
          _ = 2 ^ (width :: widths).sum := by rw [List.sum_cons, pow_add]
      · rw [bitFields, Nat.add_mul_mod_self_left, Nat.mod_eq_of_lt below,
          Nat.add_mul_div_left _ _ (Nat.two_pow_pos width), Nat.div_eq_of_lt below, Nat.zero_add,
          fields]

/-- Numbers that fit are the fields of exactly one number of all bits. -/
theorem existsUnique_bitFields {widths numbers : List Nat} (fit : Fit widths numbers) :
    ∃! number, number < 2 ^ widths.sum ∧ bitFields widths number = numbers := by
  obtain ⟨number, lt, fields⟩ := exists_bitFields_eq fit
  refine ⟨number, ⟨lt, fields⟩, ?_⟩
  rintro other ⟨otherLt, otherFields⟩
  exact bitFields_injective otherLt lt (otherFields.trans fields.symm)

/-! ### Fields as operands -/

theorem bitOf_natCast (number index : Nat) : bitOf number index = number.testBit index := by
  have shifted : (number : Int) >>> index = ((number / 2 ^ index : Nat) : Int) := by
    rw [Int.shiftRight_eq_div_pow]
    push_cast
    rfl
  rw [bitOf, shifted, Nat.testBit_eq_decide_div_mod_eq, Bool.beq_eq_decide_eq]
  apply decide_eq_decide.mpr
  omega

/-- The bits of a number on wires are those of its lowest field on the first wires and those of
the rest on the others. -/
theorem bitEntries_append (group rest : List Nat) (number : Nat) :
    bitEntries (group ++ rest) number =
      bitEntries group ((number % 2 ^ group.length : Nat) : Int) ++
        bitEntries rest ((number / 2 ^ group.length : Nat) : Int) := by
  have places : (group ++ rest).zip (List.range (group ++ rest).length) =
      group.zip (List.range group.length) ++
        (rest.zip (List.range rest.length)).map (Prod.map id (group.length + ·)) := by
    rw [List.length_append, List.range_add, List.zip_append (by simp), List.zip_map_right]
  simp only [bitEntries, places, List.map_append, List.map_map, bitOf_natCast]
  congr 1
  · apply List.map_congr_left
    intro place member
    have below := List.mem_range.mp (List.of_mem_zip member).2
    simp [Nat.testBit_mod_two_pow, below]
  · apply List.map_congr_left
    intro place _
    simp [Nat.testBit_div_two_pow, Nat.add_comm]

/-- Giving groups of wires the fields of a number is giving all wires its bits. -/
theorem ofOperands_bitFields (groups : List (List Nat)) (number : Nat) :
    Assignment.ofOperands
        (groups.zip ((bitFields (groups.map List.length) number).map Int.ofNat)) =
      ⟨bitEntries groups.flatten number⟩ := by
  induction groups generalizing number with
  | nil => rfl
  | cons group rest inductionHypothesis =>
      have later := congrArg Roster.entries (inductionHypothesis (number / 2 ^ group.length))
      simp only [Assignment.ofOperands] at later ⊢
      simp only [List.map_cons, bitFields, List.zip_cons_cons, List.flatMap_cons, later,
        List.flatten_cons, bitEntries_append]
      rfl

end CarrySave
