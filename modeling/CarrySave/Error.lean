/-
Module: CarrySave.Error
Layer: Data
Purpose: Everything that can be wrong with a request, as causes.  The wording of each cause
  is in one function, and so is its class, which tells a console whether to report the
  error and go on or to stop.
Main exports: Error, Error.wording, Error.message, ErrorClass, Error.cls
-/
import CarrySave.Datum
import CarrySave.Decimal.Numeral

namespace CarrySave

/-- The causes of failure. -/
inductive Error where
  /-- Something other than an integer stands for a wire. -/
  | notAWire (given : Datum)
  /-- An integer that is no wire of a netlist of the given size. -/
  | noSuchWire (wire : Int) (size : Nat)
  /-- Something other than an operator stands for one. -/
  | unknownOp (given : Datum)
  /-- More operands than any gate has. -/
  | tooManyOperands (count : Nat)
  /-- A negative number of inputs. -/
  | negativeInputs (count : Datum)
  /-- Something that is no number stands for a number of inputs. -/
  | notACount (given : Datum)
  /-- Operands of an adder of different widths. -/
  | unequalWidths (a b : Nat)
  /-- An index that points outside its list. -/
  | indexOutOfRange
  /-- An index beyond the range of any list. -/
  | indexTooLarge
  /-- Something other than an integer stands for an index. -/
  | notAnIndex (given : Datum)
  /-- Something that no table has entries for is looked up. -/
  | notAKey (given : Datum)
  /-- A name under which nothing was put away. -/
  | nothingKept (id : String)
  /-- An input that was given no value. -/
  | unassigned (label : String) (wire : Nat)
  /-- A single value that does not fit into eight bits. -/
  | notAByte (value : Int)
  /-- A single value that does not fit into sixty-four bits. -/
  | notAWord (value : Int)
  /-- Two batches whose sizes differ, neither of them being one. -/
  | unequalBatches (left right : Nat)
  /-- More bits than a batch of words can hold. -/
  | tooManyBits (count : Nat)
  /-- A width beyond what a batch of words can hold. -/
  | tooWide (width : Int)
  /-- A negative number of bits. -/
  | negativeBits (count : Int)
  /-- More bits than can be enumerated. -/
  | tooManyToEnumerate (count : Int)
  /-- More input bits than an exhaustive check takes. -/
  | tooManyToCheck (name : String) (bits : Int)
  /-- Operators that a cost model gives no price for. -/
  | unpriced (model : String) (ops : List Op)
  /-- A price below zero. -/
  | negativePrice (op : Op) (price : Int)
  /-- A ratio beyond the range of real numbers. -/
  | ratioTooLarge
  /-- A kind of circuit that nobody knows how to build. -/
  | unknownCircuit (kind : String)
  /-- A text that is no integer. -/
  | notAnInteger (text : String)
  /-- An integer of too many digits. -/
  | tooManyDigits (count : Nat)
  /-- An integer of more digits than are written. -/
  | unwritable
  /-- A line was asked for after the last one. -/
  | endOfInput
deriving Inhabited

/-- How errors are classed. -/
inductive ErrorClass where
  /-- The request itself was wrong; nothing else is affected. -/
  | badRequest
  /-- A number was too large for where it had to go. -/
  | overflow
  /-- A list was indexed outside its range. -/
  | badIndex
  /-- A name was looked up that stands for nothing. -/
  | missing
  /-- A value was of the wrong sort for what was to be done with it. -/
  | wrongSort
  /-- The input ended. -/
  | ended
deriving DecidableEq, Repr

namespace Error

/-- The most bits that a batch of words holds in each of them, the sign bit being left
out. -/
def maxBatchBits : Nat := 63

/-- The most bits whose assignments are enumerated. -/
def maxEnumeratedBits : Nat := 24

/-- The most characters of a refused numeral that are quoted. -/
def maxQuoted : Nat := 200

/-- The complaint about an integer of too many digits, with a remark on the integer. -/
def digitLimit (remark : String) : String :=
  "Exceeds the limit (" ++ toString Decimal.maxDigits ++ " digits) for integer string conversion" ++
    remark ++ "; use sys.set_int_max_str_digits() to increase the limit"

/-- The integers that the wording of an error spells out. -/
def numerals : Error → List Int
  | .notAWire given | .unknownOp given | .negativeInputs given => given.integers
  | .noSuchWire value _ | .notAByte value | .tooWide value | .negativeBits value
  | .tooManyToEnumerate value | .tooManyToCheck _ value | .negativePrice _ value => [value]
  | _ => []

/-- How an error is put when every integer in it can be written. -/
def wording : Error → String
  | .notAWire given => "Wire reference must be an integer, got " ++ given.literal
  | .noSuchWire wire size => s!"Invalid wire reference {wire} (netlist has {size} gates)"
  | .unknownOp given => "Unknown gate operator: " ++ given.literal
  | .tooManyOperands count => s!"Gates take 0, 1 or 2 operands, got {count}"
  | .negativeInputs count => "Input count must be non-negative, got " ++ count.literal
  | .notACount (.real _) => "'float' object cannot be interpreted as an integer"
  | .notACount given =>
      "'<' not supported between instances of '" ++ given.kind ++ "' and 'int'"
  | .unequalWidths a b => s!"Input bit arrays must have the same length ({a} != {b})"
  | .indexOutOfRange => "list index out of range"
  | .indexTooLarge => "cannot fit 'int' into an index-sized integer"
  | .notAnIndex given => "list indices must be integers or slices, not " ++ given.kind
  | .notAKey given => "unhashable type: '" ++ given.kind ++ "'"
  | .nothingKept id => Text.quoted id
  | .unassigned label wire => s!"No value for input {label} (wire {wire})"
  | .notAByte value => s!"Python integer {value} out of bounds for uint8"
  | .notAWord _ => "Python int too large to convert to C long"
  | .unequalBatches left right =>
      s!"operands could not be broadcast together with shapes ({left},) ({right},) "
  | .tooManyBits count => s!"Arrays hold at most {maxBatchBits} bits, got {count}"
  | .tooWide width => s!"Arrays hold at most {maxBatchBits} bits, got width {width}"
  | .negativeBits count => s!"Bit count must be non-negative, got {count}"
  | .tooManyToEnumerate count =>
      s!"Exhaustive inputs are limited to {maxEnumeratedBits} bits, got {count}"
  | .tooManyToCheck name bits =>
      s!"{name} has {bits} input bits; exhaustive checks are limited to {maxEnumeratedBits}"
  | .unpriced model ops =>
      s!"Cost model '{model}' has no price for: " ++ ", ".intercalate (ops.map Op.name)
  | .negativePrice op price =>
      "Cost of " ++ op.name ++ s!" must be non-negative, got {price}"
  | .ratioTooLarge => "integer division result too large for a float"
  | .unknownCircuit kind =>
      s!"Unknown operator '{kind}' (choose from adder, popcount, multiplier)"
  | .notAnInteger text =>
      "invalid literal for int() with base 10: " ++
        String.ofList ((Text.quoted text).toList.take maxQuoted)
  | .tooManyDigits count => digitLimit (s!": value has {count} digits")
  | .unwritable => digitLimit ""
  | .endOfInput => "EOF when reading a line"

/-- The message of an error.  An error that would have to spell out an integer of too many
digits complains about that instead. -/
def message (error : Error) : String :=
  if error.numerals.all Decimal.isWritable then error.wording else wording .unwritable

/-- The class of an error. -/
def cls : Error → ErrorClass
  | .notAByte _ | .notAWord _ | .ratioTooLarge => .overflow
  | .indexOutOfRange | .indexTooLarge => .badIndex
  | .notACount _ | .notAnIndex _ | .notAKey _ => .wrongSort
  | .nothingKept _ => .missing
  | .endOfInput => .ended
  | _ => .badRequest

end Error

end CarrySave
