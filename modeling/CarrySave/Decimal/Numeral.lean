/-
Module: CarrySave.Decimal.Numeral
Layer: Numbers
Purpose: Reading an integer that somebody typed: a sign if wanted, then decimal digits of
  any script, with single underscores between digits if wanted.
Main exports: NumeralFault, maxDigits, isWritable, readInteger
-/
import CarrySave.Text.Digit

namespace CarrySave.Decimal

open Text

/-- Why a text is not accepted as an integer. -/
inductive NumeralFault where
  | malformed
  | tooManyDigits (count : Nat)
deriving DecidableEq, Repr

/-- The mark that may stand between two digits. -/
def groupMark : Char := '_'

/-- The most digits that are read or written. -/
def maxDigits : Nat := 4300

/-- Whether an integer has no more digits than are written. -/
def isWritable (n : Int) : Bool :=
  n.natAbs < Nat.pow 10 maxDigits

/-- Whether every group mark stands between two digits.  A digit is `due` at the start and
after a mark; the text must not end while one is. -/
def wellGrouped (due : Bool) : List Char → Bool
  | [] => !due
  | c :: rest =>
      if c = groupMark then !due && wellGrouped true rest else wellGrouped false rest

example : wellGrouped true ['1', '_', '0'] = true := by decide

example : wellGrouped true ['1', '_', '_', '0'] = false := by decide

/-- The natural number that digits spell, most significant first. -/
def digitsValue (digits : List Nat) : Nat :=
  digits.foldl (10 * · + ·) 0

/-- Split off a sign. -/
def splitSign : List Char → Bool × List Char
  | '-' :: rest => (true, rest)
  | '+' :: rest => (false, rest)
  | unsigned => (false, unsigned)

/-- Read an integer.  The run of digits and marks is judged first: its marks, then its
length, and last that nothing follows it. -/
def readInteger (text : String) : Except NumeralFault Int :=
  let (negative, body) := splitSign text.toList
  let belongs (c : Char) := (digitValue c).isSome || c == groupMark
  let run := body.takeWhile belongs
  let digits := run.filterMap digitValue
  if !wellGrouped true run then .error .malformed
  else if maxDigits < digits.length then .error (.tooManyDigits digits.length)
  else if run.length < body.length then .error .malformed
  else .ok (if negative then -(digitsValue digits : Int) else digitsValue digits)

end CarrySave.Decimal
