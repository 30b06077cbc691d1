/-
Module: CarrySave.Netlist.Query
Layer: Netlists
Purpose: Questions about a netlist: the operands and the display name of a wire, the
  inputs, the number of gates of each kind.
Main exports: Netlist.operandsOf, Netlist.root, Netlist.nameOf, Netlist.inputs,
  Netlist.kindCounts, Netlist.isAcyclic, Netlist.summary, Netlist.text
-/
import CarrySave.Netlist.Basic
import CarrySave.Roster

namespace CarrySave.Netlist

/-- The operand wires of the gate that a reference names. -/
def operandsOf (nl : Netlist) (reference : Datum) : Except Error (List Nat) := do
  let gate ← nl.gateAt reference
  pure gate.operands

/-! ### Names -/

/-- The wire that a chain of buffers repeats.  Each buffer repeats an earlier wire, so the
chain ends; a source that were not earlier would end it too. -/
def root (nl : Netlist) (wire : Nat) : Nat :=
  match nl.gates[wire]? with
  | some (.buffer source) => if source < wire then nl.root source else wire
  | _ => wire
termination_by wire

/-- The display name of a wire: the label of an input, the operator of a logic gate, and
for a buffer the name of the wire it repeats. -/
def wireName (nl : Netlist) (wire : Nat) : String :=
  match nl.gates[nl.root wire]? with
  | some (.input label) => label
  | some gate => gate.kind
  | none => ""

/-- The display name of the wire that a reference names. -/
def nameOf (nl : Netlist) (reference : Datum) : Except Error String := do
  let wire ← nl.resolve reference
  pure (nl.wireName wire)

/-! ### Counts -/

/-- The wires of all primary inputs, in order. -/
def inputs (nl : Netlist) : List Nat :=
  (List.range nl.size).filter fun wire =>
    match nl.gates[wire]? with
    | some (.input _) => true
    | _ => false

/-- Count one more of a kind. -/
def countKind (counts : Roster String Nat) (kind : String) : Roster String Nat :=
  counts.insert kind ((counts.get? kind).getD 0 + 1)

/-- How many gates there are of each kind that occurs, in order of first occurrence. -/
def kindCounts (nl : Netlist) : Roster String Nat :=
  nl.gates.foldl (fun counts gate => countKind counts gate.kind) .empty

/-- How many gates there are of one kind. -/
def countOf (nl : Netlist) (kind : String) : Nat :=
  (nl.kindCounts.get? kind).getD 0

/-- Whether every operand is an earlier wire. -/
def isAcyclic (nl : Netlist) : Bool :=
  (List.range nl.size).all fun wire =>
    match nl.gates[wire]? with
    | some gate => gate.operands.all (· < wire)
    | none => true

/-! ### Texts -/

/-- The size of a netlist and its number of gates of each kind, in six lines. -/
def summary (nl : Netlist) : String :=
  let title := nl.name
  let total := nl.size
  let inputs := nl.countOf "input"
  let buffers := nl.countOf "buffer"
  let ands := nl.countOf "and"
  let ors := nl.countOf "or"
  let xors := nl.countOf "xor"
  "\n".intercalate
    [ s!"Netlist '{title}':"
    , s!"  Gates: {total}"
    , s!"  Inputs: {inputs}"
    , s!"  Buffers: {buffers}"
    , s!"  AND: {ands}, OR: {ors}, XOR: {xors}" ]

/-- A netlist as a short term. -/
def text (nl : Netlist) : String :=
  let title := nl.name
  let total := nl.size
  s!"Netlist('{title}', gates={total})"

end CarrySave.Netlist
