/-
Module: CarrySave.Index
Layer: Data
Purpose: What a caller's datum selects where it is not a reference to a wire: a position in
  a list, an entry of a table, or a number of things to make.
Main exports: position, Datum.position, Datum.key, Datum.count
-/
import CarrySave.Error
import CarrySave.Word

namespace CarrySave

/-- The position that an index means in a list of the given length.  Negative indices count
from the end.  An index out of range is refused for its size alone when it is beyond the
words. -/
def position (length : Nat) (index : Int) : Except Error Nat :=
  let counted := if index < 0 then index + length else index
  if 0 ≤ counted ∧ counted < length then .ok counted.toNat
  else if isWord index then .error .indexOutOfRange
  else .error .indexTooLarge

namespace Datum

/-- The position that a datum means in a list of the given length.  Truth values count as
one and zero. -/
def position (length : Nat) : Datum → Except Error Nat
  | .int index => CarrySave.position length index
  | .bool value => CarrySave.position length (if value then 1 else 0)
  | other => .error (.notAnIndex other)

/-- The integer under which a datum is found in a table of integers, `none` for a datum that
is found in no such table.  Lists and records cannot be looked up. -/
def key : Datum → Except Error (Option Int)
  | .list items => .error (.notAKey (.list items))
  | .record names values => .error (.notAKey (.record names values))
  | other => .ok other.number?

/-- The number of things that a datum asks for.  A negative number is refused as such, also
if it has a fraction. -/
def count : Datum → Except Error Int
  | .int value => if value < 0 then .error (.negativeInputs (.int value)) else .ok value
  | .bool value => .ok (if value then 1 else 0)
  | .real value =>
      if value.isNegative then .error (.negativeInputs (.real value))
      else .error (.notACount (.real value))
  | other => .error (.notACount other)

end Datum

end CarrySave
