/-
Module: CarrySave.Signal.Verification
Layer: Signals
Purpose: Exhaustive checks.  A circuit is evaluated on every assignment of its operands in
  one pass, and every case whose result is not the expected one is reported.
Main exports: Expectation, Failure, Verdict, Netlist.check, Verdict.summary, Design.compute,
  Design.verify
-/
import CarrySave.Circuit.Design
import CarrySave.Signal.Evaluation
import CarrySave.Decimal.Grouped

namespace CarrySave

/-! ### Expectations and verdicts -/

/-- The results that a circuit is held against. -/
inductive Expectation where
  /-- A function of the operands. -/
  | rule (result : List Int → Int)
  /-- One result for each case, in order. -/
  | table (results : Array Int)

/-- A case with an unexpected result. -/
structure Failure where
  operands : List Int
  expected : Int
  actual : Int
deriving DecidableEq, Repr

/-- The outcome of a check. -/
structure Verdict where
  report : Report
  cases : Nat
  failures : List Failure

/-! ### Checking -/

/-- Refuse a check of too many cases. -/
def requireBits (name : String) (bits : Int) : Except Error Unit :=
  if (Error.maxEnumeratedBits : Int) < bits then .error (.tooManyToCheck name bits) else .ok ()

/-- The operands in every case: rows of bits are taken off in groups, and each group makes
one number a case. -/
def operandColumns (cases : Nat) : List Nat → List Signal → Except Error (List (Array Int))
  | [], _ => .ok []
  | width :: widths, rows => do
      let value ← bitsToInt ((rows.take width).map Signal.number)
      let columns ← operandColumns cases widths (rows.drop width)
      pure (value.spread cases :: columns)

/-- The entries of one case. -/
def caseOf (columns : List (Array Int)) (index : Nat) : List Int :=
  columns.map fun column => (column[index]?).getD 0

/-- An expectation as a caller may give it: a table holds words. -/
def Expectation.checked : Expectation → Except Error Unit
  | .rule _ => .ok ()
  | .table results => do
      let _ ← (Batch.many results).checked

/-- The expected result in every case.  A table must have one for each. -/
def Expectation.results (expected : Expectation) (cases : List (List Int)) :
    Except Error (Array Int) :=
  match expected with
  | .rule result => .ok (cases.map result).toArray
  | .table results =>
      if results.size = cases.length then .ok results
      else .error (.unequalBatches cases.length results.size)

/-- The cases in which two results differ. -/
def mismatches (cases : List (List Int)) (expected actual : Array Int) : List Failure :=
  (cases.zip (expected.toList.zip actual.toList)).filterMap fun (operands, wanted, got) =>
    if got = wanted then none else some ⟨operands, wanted, got⟩

/-- Check a circuit on every assignment of its operands.  The bits of the case number are
the operands in order, each least significant first. -/
def Netlist.check (nl : Netlist) (report : Report) (expected : Expectation) :
    Except Error Verdict := do
  expected.checked
  let groups := report.inputs.values
  let wires := groups.flatten
  requireBits report.name wires.length
  let (cases, patterns) ← exhaustiveInputs wires.length
  let rows : List Signal := patterns.map Batch.many
  let assignment ← Assignment.ofPairs (wires.zip (rows.map Signal.number))
  let signals ← nl.evaluate assignment
  let result ← readOutputs signals report.outputs
  let columns ← operandColumns cases (groups.map List.length) rows
  let operands := (List.range cases).map (caseOf columns)
  let wanted ← expected.results operands
  pure { report, cases, failures := mismatches operands wanted (result.spread cases) }

namespace Verdict

/-- A check passes when nothing failed. -/
def passed (verdict : Verdict) : Bool :=
  verdict.failures.isEmpty

/-- The outcome, the number of cases and the costs, in four lines. -/
def summary (verdict : Verdict) : String :=
  let title := verdict.report.name
  let failed := verdict.failures.length
  let status := if verdict.passed then "PASS" else s!"FAIL ({failed} mismatches)"
  let cases := Decimal.grouped verdict.cases
  let xaig := verdict.report.xaigCost
  let aig := verdict.report.aigCost
  "\n".intercalate
    [ s!"Verification of '{title}': {status}"
    , s!"  Cases: {cases}"
    , s!"  XAIG cost: {xaig}"
    , s!"  AIG cost: {aig}" ]

/-- Numbers between brackets.  A single one is followed by a comma. -/
def tuple : List Int → String
  | [single] => s!"({single},)"
  | items => "(" ++ ", ".intercalate (items.map toString) ++ ")"

/-- One line on a failure. -/
def failureLine (name : String) (failure : Failure) : String :=
  let operands := tuple failure.operands
  let wanted := failure.expected
  let got := failure.actual
  s!"  {name}{operands}: expected {wanted}, got {got}"

/-- The lines of a check that reports what it finds: its failures, then its summary. -/
def transcript (verdict : Verdict) : List String :=
  verdict.failures.map (failureLine verdict.report.name) ++ [verdict.summary]

end Verdict

/-! ### Circuits by design -/

namespace Design

/-- How many input bits a design has. -/
def inputBits : Design → Int
  | .adder width => 2 * width
  | .popcount width => width
  | .multiplier widthA widthB => widthA + widthB

/-- The name under which a check of a design is refused. -/
def requestName : Design → String
  | .multiplier widthA _ => s!"multiplier {widthA}"
  | other => other.name

/-- Check a design against the arithmetic it is meant to do.  A design with too many input
bits is refused before it is built. -/
def verify (design : Design) : Except Error Verdict := do
  requireBits design.requestName design.inputBits
  let circuit ← design.synthesize
  circuit.netlist.check circuit.report (.rule design.intended)

/-- Give operands values, in order; operands left over get none. -/
def assignOperands : List (List Datum) → List (Batch Int) → Except Error Assignment
  | wires :: groups, value :: values => do
      let first ← assignBits wires value
      let rest ← assignOperands groups values
      pure (first.override rest)
  | _, _ => .ok .empty

/-- Build a design and compute its result for some operands. -/
def compute (design : Design) (values : List (Batch Int)) : Except Error (Batch Int) := do
  let circuit ← design.synthesize
  let assignment ← assignOperands circuit.report.inputs.values values
  circuit.netlist.run assignment circuit.report.outputs

end Design

end CarrySave
