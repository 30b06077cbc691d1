/-
Module: CarrySave.Circuit.Compressor
Layer: Circuits
Purpose: Carry-save compression.  Wires stand in columns by weight, column `w` worth `2 ^ w`
  a wire.  The lowest column is worked on until a single wire is left in it: a full adder
  takes three wires and returns their sum to the end of the column, a half adder takes the
  last two, and either sends its carry one column up.  The value of all columns together
  never changes, and one bit per weight comes out, lowest first.
Main exports: Compressor, Compressor.work, Compressor.Advance, Compressor.next,
  Compressor.drain, compressColumns, compress
-/
import CarrySave.Circuit.Cell

namespace CarrySave

/-- A compression under way: the columns still to be reduced and the weight of the lowest
of them. -/
structure Compressor where
  weight : Nat := 0
  columns : List (List Datum)
deriving Inhabited

namespace Compressor

/-! ### Work still to do -/

section Columns

variable {α : Type}

/-- How many wires stand in the columns. -/
def wireCount : List (List α) → Nat
  | [] => 0
  | column :: rest => column.length + wireCount rest

/-- The work that columns still make.  A full adder takes away one wire at the price of at
most one new column, so a wire weighs more than a column. -/
def workOf (columns : List (List α)) : Nat :=
  2 * wireCount columns + columns.length

/-- Put a wire at the end of the lowest of some columns, which may have to be made. -/
def deposit (wire : α) : List (List α) → List (List α)
  | [] => [[wire]]
  | column :: rest => (column ++ [wire]) :: rest

@[simp] theorem wireCount_nil : wireCount ([] : List (List α)) = 0 := rfl

@[simp] theorem wireCount_cons (column : List α) (rest : List (List α)) :
    wireCount (column :: rest) = column.length + wireCount rest := rfl

@[simp] theorem wireCount_deposit (wire : α) (columns : List (List α)) :
    wireCount (deposit wire columns) = wireCount columns + 1 := by
  cases columns with
  | nil => simp [deposit]
  | cons column rest => simp [deposit]; omega

/-- Depositing makes at most one column. -/
theorem length_deposit_le (wire : α) (columns : List (List α)) :
    (deposit wire columns).length ≤ columns.length + 1 := by
  cases columns <;> simp [deposit]

end Columns

/-- The work a compression still has before it. -/
def work (compressor : Compressor) : Nat :=
  workOf compressor.columns

/-! ### Advancing to the next bit -/

/-- What comes of advancing a compression: its end, or the next bit together with what is
left, which is less work than `bound`. -/
inductive Advance (bound : Nat) where
  /-- All columns are done.  `weight` is one more than the weight of the last. -/
  | ended (weight : Nat)
  /-- The bit of a weight, and the compression from the next weight on. -/
  | bit (weight : Nat) (wire : Datum) (rest : Compressor) (less : rest.work < bound)

/-- The same outcome under a weaker bound. -/
def Advance.widen {bound larger : Nat} (le : bound ≤ larger) : Advance bound → Advance larger
  | .ended weight => .ended weight
  | .bit weight wire rest less => .bit weight wire rest (Nat.lt_of_lt_of_le less le)

/-- Advance columns, the lowest of which has the given weight, to their next bit.  A wire
that is alone in its column is the bit of its weight as it is.  Of two wires the sum is the
bit.  Of three or more the first three are added and the column is looked at again. -/
def nextFrom (weight : Nat) : (columns : List (List Datum)) → Builder (Advance (workOf columns))
  | [] => pure (.ended weight)
  | [] :: rest => do
      let outcome ← nextFrom (weight + 1) rest
      pure (outcome.widen (by simp [workOf]))
  | [x] :: rest =>
      pure (.bit weight x ⟨weight + 1, rest⟩ (by simp [work, workOf]; omega))
  | [x, y] :: rest => do
      let (sum, carry) ← halfAdder x y
      pure (.bit weight (.wire sum) ⟨weight + 1, deposit (.wire carry) rest⟩ (by
        have := length_deposit_le (.wire carry) rest
        simp [work, workOf]
        omega))
  | (x :: y :: z :: more) :: rest => do
      let (sum, carry) ← fullAdder x y z
      let outcome ← nextFrom weight ((more ++ [.wire sum]) :: deposit (.wire carry) rest)
      pure (outcome.widen (by
        have := length_deposit_le (.wire carry) rest
        simp [workOf]
        omega))
termination_by columns => workOf columns
decreasing_by
  · simp [workOf]
  · have := length_deposit_le (.wire carry) rest
    simp [workOf]
    omega

/-- Advance a compression to its next bit. -/
def next (compressor : Compressor) : Builder (Advance compressor.work) :=
  nextFrom compressor.weight compressor.columns

/-- All bits that a compression still gives, with their weights, and the weight at which it
ends: the number of columns that were ever looked at. -/
def drain (compressor : Compressor) : Builder (List (Nat × Datum) × Nat) := do
  match ← compressor.next with
  | .ended weight => pure ([], weight)
  | .bit weight wire rest _ =>
      let (bits, top) ← drain rest
      pure ((weight, wire) :: bits, top)
termination_by compressor.work

end Compressor

/-! ### Compression of columns -/

/-- Reduce columns to one bit per weight.  Column `w` holds the wires of weight `w`. -/
def compressColumns (columns : List (List Datum)) : Builder (List (Nat × Datum)) := do
  let (bits, _) ← Compressor.drain { columns }
  pure bits

/-- Reduce columns to their bits, lowest weight first. -/
def compress (columns : List (List Datum)) : Builder (List Datum) := do
  let bits ← compressColumns columns
  pure (bits.map (·.2))

end CarrySave
