/-
Module: CarrySave.Proofs.Circuit.Pricing
Layer: Proofs
Purpose: What circuits cost.  Inputs are free, and the price of a netlist in which cells were built
  is that of the netlist before, and the price of a half adder or a full adder for each cell.  A
  report lists the prices and the numbers of gates of the circuit that it is on.
Main exports: addsKinds_makeInputs, CostModel.adderPrice, CostModel.cost_withCells,
  Report.countOfKind, Design.synthesize_priced
-/
import CarrySave.Circuit.Design
import CarrySave.Proofs.Circuit.Cells
import CarrySave.Proofs.Roster

namespace CarrySave

open Builder Compressor

/-! ### Inputs -/

theorem addsKinds_makeInputs (label : String) (count : Nat) :
    AddsKinds (makeInputs label count) (List.replicate count "input") := by
  have notNegative : ¬((count : Int) < 0) := by omega
  have added := addsKinds_inputs ((List.range count).map fun index => label ++ toString index)
  rw [List.length_map, List.length_range] at added
  rw [makeInputs, if_neg notNegative]
  exact added

/-! ### Prices of cells -/

/-- Cells have gates of a kind as half adders and full adders have them. -/
theorem count_kinds_cells (cells : List Cell) (kind : String) :
    (cells.flatMap (·.adder.kinds)).count kind =
      countOf cells .half * Adder.half.kinds.count kind +
        countOf cells .full * Adder.full.kinds.count kind := by
  induction cells with
  | nil => simp [countOf]
  | cons cell rest inductionHypothesis =>
      rw [List.flatMap_cons, List.count_append, inductionHypothesis]
      cases cell with
      | half weight x y =>
          simp [countOf, Cell.adder]
          ring
      | full weight x y z =>
          simp [countOf, Cell.adder]
          ring

namespace CostModel

/-- The price of a cell. -/
def adderPrice (model : CostModel) : Adder → Nat
  | .half => model.xorPrice + model.andPrice
  | .full => 2 * model.xorPrice + 2 * model.andPrice + model.orPrice

/-- Building cells costs the price of each of them. -/
theorem cost_withCells (model : CostModel) (nl : Netlist) (cells : List Cell) :
    model.cost (nl.withCells cells) = model.cost nl +
      countOf cells .half * model.adderPrice .half +
        countOf cells .full * model.adderPrice .full := by
  simp only [cost_eq, Netlist.kinds_withCells, List.count_append, count_kinds_cells, adderPrice]
  simp [Adder.kinds]
  ring

end CostModel

/-! ### Reports -/

/-- How many gates of a kind there are according to a report. -/
def Report.countOfKind (report : Report) (kind : String) : Int :=
  (report.kindCounts.get? kind).getD 0

theorem Report.countOfKind_collect (name : String) (nl : Netlist)
    (inputs : Roster String (List Datum)) (outputs : List Datum) (kind : String) :
    (collect name nl inputs outputs).countOfKind kind = nl.kinds.count kind := by
  rw [countOfKind, collect, Roster.get?_mapValues, Netlist.get?_kindCounts]
  split
  · rename_i none
    rw [none]
    rfl
  · rfl

/-- The report on a circuit has the prices of its netlist and counts its gates. -/
theorem Design.synthesize_priced {design : Design} {operands : List (String × List Nat)}
    {outputs : List Datum} {nl : Netlist}
    (built : design.build.run { name := design.netlistName } = .ok (operands, outputs) nl) :
    ∃ circuit, design.synthesize = .ok circuit ∧ circuit.netlist = nl ∧
      circuit.report.xaigCost = CostModel.xaig.cost nl ∧
      circuit.report.aigCost = CostModel.aig.cost nl ∧
      ∀ kind, circuit.report.countOfKind kind = nl.kinds.count kind := by
  refine ⟨_, by rw [Design.synthesize, built], rfl, rfl, rfl, ?_⟩
  exact Report.countOfKind_collect _ _ _ _

end CarrySave
