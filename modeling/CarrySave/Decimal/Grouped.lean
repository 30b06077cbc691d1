/-
Module: CarrySave.Decimal.Grouped
Layer: Numbers
Purpose: Natural numbers with a comma between groups of three digits.
Main exports: grouped
-/
namespace CarrySave.Decimal

/-- Put a comma after every third digit that another digit follows.  The digits come last
one first. -/
def groupDigits : List Char → List Char
  | a :: b :: c :: d :: rest => a :: b :: c :: ',' :: groupDigits (d :: rest)
  | few => few

example : groupDigits ['0', '0', '0', '1'] = ['0', '0', '0', ',', '1'] := by decide

/-- A natural number in groups of three digits. -/
def grouped (n : Nat) : String :=
  String.ofList (groupDigits (Nat.toDigits 10 n).reverse).reverse

end CarrySave.Decimal
