/-
Module: CarrySave.Circuit.Design
Layer: Circuits
Purpose: The circuits that can be ordered by name and width, each with inputs of its own in
  a netlist of its own, and the arithmetic that each is meant to do.
Main exports: Design, Design.ofKind, Design.build, Design.synthesize, Design.intended
-/
import CarrySave.Circuit.Operator
import CarrySave.Circuit.Report

namespace CarrySave

/-- A circuit to be built. -/
inductive Design where
  | adder (width : Int)
  | popcount (width : Int)
  | multiplier (widthA widthB : Int)
deriving DecidableEq, Repr, Inhabited

/-- A circuit just built. -/
structure Synthesis where
  netlist : Netlist
  report : Report

namespace Design

/-- The design of a kind, all operands of which have the given width. -/
def ofKind (kind : String) (width : Int) : Except Error Design :=
  match kind with
  | "adder" => .ok (.adder width)
  | "popcount" => .ok (.popcount width)
  | "multiplier" => .ok (.multiplier width width)
  | other => .error (.unknownCircuit other)

/-- The name of a design in reports. -/
def name : Design → String
  | .adder width => s!"adder {width}"
  | .popcount width => s!"popcount {width}"
  | .multiplier widthA widthB => s!"multiplier {widthA}x{widthB}"

/-- The name of the netlist that a design is built in. -/
def netlistName : Design → String
  | .adder width => s!"adder{width}"
  | .popcount width => s!"popcount{width}"
  | .multiplier widthA widthB => s!"mul{widthA}x{widthB}"

/-- Build a design in the netlist at hand.  The wires of the operands come by label. -/
def build : Design → Builder (List (String × List Nat) × List Datum)
  | .adder width => do
      let a ← makeInputs "a" width
      let b ← makeInputs "b" width
      let outputs ← CarrySave.adder (a.map .wire) (b.map .wire)
      pure ([("a", a), ("b", b)], outputs)
  | .popcount width => do
      let x ← makeInputs "x" width
      let outputs ← CarrySave.popcount (x.map .wire)
      pure ([("x", x)], outputs)
  | .multiplier widthA widthB => do
      let a ← makeInputs "a" widthA
      let b ← makeInputs "b" widthB
      let outputs ← CarrySave.multiplier (a.map .wire) (b.map .wire)
      pure ([("a", a), ("b", b)], outputs)

/-- Build a design in a netlist of its own. -/
def synthesize (design : Design) : Except Error Synthesis :=
  match design.build.run { name := design.netlistName } with
  | .ok (operands, outputs) netlist =>
      let inputs := Roster.ofList (operands.map fun (label, wires) => (label, wires.map .wire))
      .ok ⟨netlist, Report.collect design.name netlist inputs outputs⟩
  | .error error _ => .error error

/-- How many bits of a natural number, of those below `width`, are set. -/
def setBits (width n : Nat) : Nat :=
  ((List.range width).filter (n.testBit ·)).length

/-- What a design is meant to compute from its operands. -/
def intended : Design → List Int → Int
  | .adder _, operands => operands.foldl (· + ·) 0
  | .popcount width, operands => setBits width.toNat (operands.foldl (· + ·) 0).toNat
  | .multiplier _ _, operands => operands.foldl (· * ·) 1

end Design

end CarrySave
