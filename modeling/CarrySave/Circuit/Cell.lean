/-
Module: CarrySave.Circuit.Cell
Layer: Circuits
Purpose: The two cells that all arithmetic is made of.  A half adder adds two bits, a full
  adder three; both give a sum bit and a carry of twice its weight.
Main exports: halfAdder, fullAdder, run_halfAdder, run_fullAdder
-/
import CarrySave.Netlist.Builder

namespace CarrySave

open Builder

/-- Add two bits: their exclusive or is the sum and their conjunction the carry. -/
def halfAdder (x y : Datum) : Builder (Nat × Nat) := do
  let sum ← logic .xor x y
  let carry ← logic .and x y
  pure (sum, carry)

/-- Add three bits with two half adders in a row.  At most one of the two has a carry, so
the disjunction of their carries is the carry of all three. -/
def fullAdder (x y z : Datum) : Builder (Nat × Nat) := do
  let (partialSum, firstCarry) ← halfAdder x y
  let (sum, secondCarry) ← halfAdder (.wire partialSum) z
  let carry ← logic .or (.wire firstCarry) (.wire secondCarry)
  pure (sum, carry)

/-- The netlist in which a half adder of two wires has been built. -/
def Netlist.withHalfAdder (nl : Netlist) (x y : Nat) : Netlist :=
  (nl.push (.logic .xor x y)).push (.logic .and x y)

/-- The netlist in which a full adder of three wires has been built. -/
def Netlist.withFullAdder (nl : Netlist) (x y z : Nat) : Netlist :=
  ((nl.withHalfAdder x y).withHalfAdder nl.size z).push (.logic .or (nl.size + 1) (nl.size + 3))

@[simp] theorem Netlist.size_withHalfAdder (nl : Netlist) (x y : Nat) :
    (nl.withHalfAdder x y).size = nl.size + 2 := by
  simp [withHalfAdder]

@[simp] theorem Netlist.size_withFullAdder (nl : Netlist) (x y z : Nat) :
    (nl.withFullAdder x y z).size = nl.size + 5 := by
  simp [withFullAdder]

/-- A half adder of existing wires is built without fail. -/
theorem run_halfAdder {nl : Netlist} {x y : Nat} (xBelow : x < nl.size) (yBelow : y < nl.size) :
    (halfAdder (.wire x) (.wire y)).run nl =
      .ok (nl.size, nl.size + 1) (nl.withHalfAdder x y) := by
  have second : (logic .and (.wire x) (.wire y)).run (nl.push (.logic .xor x y)) = _ :=
    run_logic .and (by simp; omega) (by simp; omega)
  simp [halfAdder, run_logic .xor xBelow yBelow, second, Netlist.withHalfAdder]

/-- A full adder of existing wires is built without fail. -/
theorem run_fullAdder {nl : Netlist} {x y z : Nat} (xBelow : x < nl.size)
    (yBelow : y < nl.size) (zBelow : z < nl.size) :
    (fullAdder (.wire x) (.wire y) (.wire z)).run nl =
      .ok (nl.size + 2, nl.size + 4) (nl.withFullAdder x y z) := by
  have second : (halfAdder (.wire nl.size) (.wire z)).run (nl.withHalfAdder x y) = _ :=
    run_halfAdder (by simp) (by simp; omega)
  have last : (logic .or (.wire (nl.size + 1)) (.wire (nl.size + 3))).run
      ((nl.withHalfAdder x y).withHalfAdder nl.size z) = _ :=
    run_logic .or (by simp) (by simp)
  simp [fullAdder, run_halfAdder xBelow yBelow, second, last, Netlist.withFullAdder]

end CarrySave
