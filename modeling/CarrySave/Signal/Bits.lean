/-
Module: CarrySave.Signal.Bits
Layer: Signals
Purpose: Numbers and their bits, least significant first.  A single number may be of any
  size; the numbers of a batch are sixty-four bit words, of which sixty-three bits can be
  given or taken.
Main exports: bitOf, bitValue, Signal, intToBits, bitsToInt, Assignment, Assignment.ofPairs,
  assignBits, exhaustiveInputs
-/
import CarrySave.Signal.Batch
import CarrySave.Index
import CarrySave.Roster

namespace CarrySave

/-! ### Single bits -/

/-- A bit of an integer in two's complement of unlimited length. -/
def bitOf (value : Int) (index : Nat) : Bool :=
  (value >>> index) % 2 == 1

/-- The number that a bit stands for. -/
def bitValue (bit : Bool) : Int :=
  if bit then 1 else 0

/-! ### Signals -/

/-- The value of a wire: a bit, in one case or in many. -/
abbrev Signal := Batch Bool

/-- The numbers, zero or one, of a signal. -/
def Signal.number (signal : Signal) : Batch Int :=
  signal.map bitValue

/-- The lowest `width` bits of a number.  A width below zero gives none. -/
def intToBits (value : Batch Int) (width : Int) : Except Error (List Signal) :=
  if !value.isSingle && decide ((Error.maxBatchBits : Int) < width) then
    .error (.tooWide width)
  else
    .ok ((List.range width.toNat).map fun index => value.map (bitOf · index))

/-! ### Numbers from bits -/

/-- Add, in words, one more bit of the given weight to a number. -/
def addBit (total : Batch Int) (bit : Batch Int) (weight : Nat) : Except Error (Batch Int) := do
  match bit with
  | .one value => if !isWord value then throw (.notAWord value)
  | .many _ => pure ()
  let unit : Int := Nat.pow 2 weight
  Batch.zipWith (fun sum value => wordOf (sum + wordOf (value * unit))) total bit

/-- The value of single bits, whatever numbers they are. -/
def weightedSum : List Int → Int
  | [] => 0
  | bit :: rest => bit + 2 * weightedSum rest

/-- The single value of a batch, if it has one. -/
def Batch.single? {α : Type} : Batch α → Option α
  | .one value => some value
  | .many _ => none

/-- The number that bits make.  Single bits make a number of any size.  As soon as one bit
is a batch, the sum is taken in words. -/
def bitsToInt (bits : List (Batch Int)) : Except Error (Batch Int) :=
  match bits.mapM Batch.single? with
  | some values => .ok (.one (weightedSum values))
  | none =>
      if Error.maxBatchBits < bits.length then
        .error (.tooManyBits bits.length)
      else
        bits.zipIdx.foldlM (fun total (bit, weight) => addBit total bit weight) (.one 0)

/-! ### Assignments -/

/-- Values by wire. -/
abbrev Assignment := Roster Int (Batch Int)

/-- The assignment that pairs of a reference and a value make.  A reference that is no
integer is that of no wire. -/
def Assignment.ofPairs (pairs : List (Datum × Batch Int)) : Except Error Assignment := do
  let entries ← pairs.mapM fun (reference, value) => do
    let value ← value.checked
    let key ← reference.key
    pure (key.map fun wire => (wire, value))
  pure (Roster.ofList (entries.filterMap id))

/-- The assignment that gives wires the bits of a number, least significant first. -/
def assignBits (wires : List Datum) (value : Batch Int) : Except Error Assignment := do
  let value ← value.checked
  let bits ← intToBits value wires.length
  Assignment.ofPairs (wires.zip (bits.map Signal.number))

/-- All assignments of `count` bits: for each bit a row, in which case `k` holds that bit
of `k`. -/
def exhaustiveInputs (count : Int) : Except Error (Nat × List (Array Bool)) :=
  if count < 0 then
    .error (.negativeBits count)
  else if (Error.maxEnumeratedBits : Int) < count then
    .error (.tooManyToEnumerate count)
  else
    let cases := Array.range (Nat.pow 2 count.toNat)
    .ok (cases.size, (List.range count.toNat).map fun index => cases.map (Nat.testBit · index))

end CarrySave
