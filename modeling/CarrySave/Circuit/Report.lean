/-
Module: CarrySave.Circuit.Report
Layer: Circuits
Purpose: Reports on circuits: which wires are the operands, which the result, and what the
  netlist cost under the standard models when the report was made.
Main exports: Report, Report.collect, Report.overhead, Report.summary, Report.text
-/
import CarrySave.Netlist.Cost
import CarrySave.Decimal.Fixed

namespace CarrySave

/-- What is known of a circuit besides its netlist. -/
structure Report where
  name : String
  /-- The wires of each operand, least significant first. -/
  inputs : Roster String (List Datum)
  /-- The wires of the result, least significant first. -/
  outputs : List Datum
  /-- The cost when every operator is a gate of its own. -/
  xaigCost : Int := 0
  /-- The cost when conjunction is the only gate. -/
  aigCost : Int := 0
  /-- The number of gates of each kind. -/
  kindCounts : Roster String Int := .empty

namespace Report

/-- The report on a netlist as it stands. -/
def collect (name : String) (nl : Netlist) (inputs : Roster String (List Datum))
    (outputs : List Datum) : Report where
  name := name
  inputs := inputs
  outputs := outputs
  xaigCost := CostModel.xaig.cost nl
  aigCost := CostModel.aig.cost nl
  kindCounts := nl.kindCounts.mapValues Int.ofNat

/-- How many times dearer the circuit is when conjunction is the only gate. -/
def overhead (report : Report) : Except Error Binary64 :=
  relativeCost report.aigCost report.xaigCost

/-- The places of the overhead in a summary. -/
def overheadPlaces : Nat := 2

/-- The widths of the operands, the size of the netlist and the costs, in six lines. -/
def summary (report : Report) (nl : Netlist) : Except Error String := do
  let overhead ← report.overhead
  let title := report.name
  let widths := ", ".intercalate
    (report.inputs.entries.map fun (label, wires) => label ++ "=" ++ toString wires.length)
  let outputs := report.outputs.length
  let total := nl.size
  let xaig := report.xaigCost
  let aig := report.aigCost
  let factor := overhead.toPlaces overheadPlaces
  pure ("\n".intercalate
    [ s!"SynthesisReport '{title}':"
    , s!"  Inputs: {widths}"
    , s!"  Outputs: {outputs} bits"
    , s!"  Netlist size: {total}"
    , s!"  XAIG cost: {xaig}"
    , s!"  AIG cost: {aig} ({factor}x)" ])

/-- A report as a short term. -/
def text (report : Report) : String :=
  let title := report.name
  let xaig := report.xaigCost
  let aig := report.aigCost
  s!"SynthesisReport('{title}', xaig={xaig}, aig={aig})"

end Report

end CarrySave
