/-
Module: CarrySave.Text.CharClass
Layer: Text
Purpose: Classes of characters, given as tables of code point ranges.
Main exports: CharClass, CharClass.has
-/
namespace CarrySave.Text

/-- A class of characters: the first and last code point of each of its ranges. -/
structure CharClass where
  ranges : Array (Nat × Nat)

/-- Membership of a character in a class. -/
def CharClass.has (cls : CharClass) (c : Char) : Bool :=
  cls.ranges.any fun (first, last) => first ≤ c.toNat && c.toNat ≤ last

end CarrySave.Text
