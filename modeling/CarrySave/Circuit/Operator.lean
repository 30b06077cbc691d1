/-
Module: CarrySave.Circuit.Operator
Layer: Circuits
Purpose: Addition, population count and multiplication.  Each lays out its operand bits,
  least significant first, in columns by weight and leaves the rest to compression.
Main exports: makeInputs, adder, popcount, diagonals, partialProducts, multiplier
-/
import CarrySave.Circuit.Compressor

namespace CarrySave

open Builder

/-- Add inputs whose labels are `label` followed by `0`, `1`, and so on. -/
def makeInputs (label : String) (count : Int) : Builder (List Nat) :=
  if count < 0 then
    throw (.negativeInputs (.int count))
  else
    inputs ((List.range count.toNat).map fun index => label ++ toString index)

/-- Add two numbers of the same width.  Each column holds the two bits of one weight. -/
def adder (a b : List Datum) : Builder (List Datum) :=
  if a.length = b.length then
    compress (List.zipWith (fun x y => [x, y]) a b)
  else
    throw (.unequalWidths a.length b.length)

/-- Count the bits that are set: all bits are of weight one. -/
def popcount (bits : List Datum) : Builder (List Datum) :=
  compress [bits]

/-! ### Multiplication -/

/-- The pairs of bit positions, of two numbers of `m` and `n` bits, whose product has the
weight `d`, by position in the first number. -/
def diagonal (m n d : Nat) : List (Nat × Nat) :=
  let least := d + 1 - n
  (List.range' least (min m (d + 1) - least)).map fun i => (i, d - i)

example : diagonal 2 3 1 = [(0, 1), (1, 0)] := by decide

/-- The diagonals of the array of partial products, by weight. -/
def diagonals (m n : Nat) : List (List (Nat × Nat)) :=
  (List.range (m + n - 1)).map (diagonal m n)

/-- The bits of two operands, each as the latest copy that was made of it. -/
structure Operands where
  a : List Datum
  b : List Datum

/-- Multiply one bit of each operand.  Both bits are copied by a buffer first, and the
copies take the place of the bits, so that every product has wires of its own. -/
def partialProduct (operands : Operands) (i j : Nat) : Builder (Nat × Operands) := do
  match operands.a[i]?, operands.b[j]? with
  | some x, some y =>
      let xCopy ← buffer x
      let yCopy ← buffer y
      let product ← logic .and (.wire xCopy) (.wire yCopy)
      pure (product, ⟨operands.a.set i (.wire xCopy), operands.b.set j (.wire yCopy)⟩)
  | _, _ => throw .indexOutOfRange

/-- The products of one diagonal in order. -/
def diagonalProducts (operands : Operands) :
    List (Nat × Nat) → Builder (List Datum × Operands)
  | [] => pure ([], operands)
  | (i, j) :: rest => do
      let (product, operands) ← partialProduct operands i j
      let (column, operands) ← diagonalProducts operands rest
      pure (.wire product :: column, operands)

/-- The columns of products of some diagonals. -/
def partialProducts (operands : Operands) :
    List (List (Nat × Nat)) → Builder (List (List Datum))
  | [] => pure []
  | pairs :: rest => do
      let (column, operands) ← diagonalProducts operands pairs
      let columns ← partialProducts operands rest
      pure (column :: columns)

/-- Multiply two numbers of any widths. -/
def multiplier (a b : List Datum) : Builder (List Datum) := do
  let columns ← partialProducts ⟨a, b⟩ (diagonals a.length b.length)
  compress columns

end CarrySave
