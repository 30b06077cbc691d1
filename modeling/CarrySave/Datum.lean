/-
Module: CarrySave.Datum
Layer: Data
Purpose: What a caller may write where a wire, an operator or a label is expected.  Only an
  integer can name a wire and only an operator can name a logic gate, but everything has a
  text, and a wire that stands alone in its column is passed on without being looked at.
Main exports: Datum, Datum.wire, Datum.number?, Datum.literal, Datum.display,
  Datum.integers, Datum.kind
-/
import CarrySave.Gate
import CarrySave.Decimal.Shortest
import CarrySave.Text.Quoted

namespace CarrySave

/-- A value of a caller's choice. -/
inductive Datum where
  | null
  | bool (value : Bool)
  | int (value : Int)
  | real (value : Binary64)
  | text (value : String)
  | op (value : Op)
  | list (items : List Datum)
  /-- Named values.  The names are in the order of the values. -/
  | record (names : List String) (values : List Datum)
deriving Inhabited

namespace Datum

/-- The reference to a wire. -/
def wire (w : Nat) : Datum := .int w

/-- The integer that a datum equals.  Truth values count as one and zero, and a real number
equals an integer when it has no fraction. -/
def number? : Datum → Option Int
  | .int value => some value
  | .bool value => some (if value then 1 else 0)
  | .real value => value.integer?
  | _ => none

mutual

/-- A datum as it would be written down: texts between quotes. -/
def literal : Datum → String
  | .null => "None"
  | .bool value => if value then "True" else "False"
  | .int value => toString value
  | .real value => value.text
  | .text value => Text.quoted value
  | .op value => "<GateOp." ++ value.capitals ++ ": " ++ Text.quoted value.name ++ ">"
  | .list items => "[" ++ ", ".intercalate (literals items) ++ "]"
  | .record names values =>
      let field (name value : String) := Text.quoted name ++ ": " ++ value
      "\x7b" ++ ", ".intercalate (List.zipWith field names (literals values)) ++ "\x7d"

/-- The written forms of a list of data. -/
def literals : List Datum → List String
  | [] => []
  | item :: rest => item.literal :: literals rest

end

/-- A datum as a label: like its written form, but a text is shown as it is.  This
idealises: an integer is written in full whatever its number of digits.  The limit
`Decimal.maxDigits`, below which error messages are worded and numerals are read, is not applied
to labels. -/
def display : Datum → String
  | .text value => value
  | .op value => "GateOp." ++ value.capitals
  | other => other.literal

mutual

/-- The integers that the written form of a datum spells out. -/
def integers : Datum → List Int
  | .int value => [value]
  | .list items => allIntegers items
  | .record _ values => allIntegers values
  | _ => []

/-- The integers that the written forms of some data spell out. -/
def allIntegers : List Datum → List Int
  | [] => []
  | item :: rest => item.integers ++ allIntegers rest

end

/-- What sort of datum it is, as it is called in messages. -/
def kind : Datum → String
  | .null => "NoneType"
  | .bool _ => "bool"
  | .int _ => "int"
  | .real _ => "float"
  | .text _ => "str"
  | .op _ => "GateOp"
  | .list _ => "list"
  | .record _ _ => "dict"

end Datum

end CarrySave
