/-
Module: CarrySave.Word
Layer: Numbers
Purpose: Sixty-four bit words in two's complement, as the integers they stand for.
Main exports: wordOf, isWord, wordOf_eq_bmod
-/
namespace CarrySave

/-- The word, from `-2 ^ 63` up to but not including `2 ^ 63`, that an integer is congruent
to. -/
def wordOf (value : Int) : Int :=
  (Int64.ofInt value).toInt

theorem wordOf_eq_bmod (value : Int) : wordOf value = value.bmod UInt64.size := by
  simp [wordOf, UInt64.size]

/-- Whether an integer is a word. -/
def isWord (value : Int) : Bool :=
  wordOf value == value

/-- A number that a word can hold is its own word. -/
theorem wordOf_of_lt {value : Int} (lower : -0x8000000000000000 ≤ value)
    (upper : value < 0x8000000000000000) : wordOf value = value := by
  rw [wordOf_eq_bmod]
  exact Int.bmod_eq_of_le (by simp [UInt64.size]; omega) (by simp [UInt64.size]; omega)

end CarrySave
