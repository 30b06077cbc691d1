/-
Module: CarrySave.Netlist.Listing
Layer: Netlists
Purpose: A netlist as text, one gate a line under a title line, with chosen output wires
  marked.
Main exports: Netlist.outputMarks, Netlist.markOf, Netlist.gateLine, Netlist.markedListing,
  Netlist.listing
-/
import CarrySave.Index
import CarrySave.Netlist.Basic
import CarrySave.Text.Align

namespace CarrySave.Netlist

open Text

/-- The wires chosen as outputs, each with its position among them, last one first. -/
def outputMarks (outputs : List Datum) : Except Error (List (Int × Nat)) := do
  let marks ← outputs.zipIdx.mapM fun (output, place) => do
    let key ← output.key
    pure (key.map fun wire => (wire, place))
  pure (marks.filterMap id).reverse

/-- The position at which a wire is chosen as an output.  A wire chosen more than once
bears the last of its positions. -/
def markOf (marks : List (Int × Nat)) (wire : Nat) : Option Nat :=
  marks.lookup (wire : Int)

/-- The width in which the operation of a logic gate is set. -/
def operationWidth : Nat := 6

/-- What a gate does. -/
def gateText : Gate → String
  | .input label => alignLeft operationWidth "input" ++ s!" {label}"
  | .buffer source => alignLeft operationWidth "buf" ++ s!" {source}"
  | .logic op a b => alignLeft operationWidth op.name ++ s!" {a} {b}"

/-- The line of one gate: its wire, set in a column of the given width, what the gate does,
and its mark as an output. -/
def gateLine (column : Nat) (marks : List (Int × Nat)) (wire : Nat) (gate : Gate) : String :=
  let mark := match markOf marks wire with
    | some place => s!"  -> out{place}"
    | none => ""
  alignRight column (toString wire) ++ ": " ++ gateText gate ++ mark

/-- The listing of a netlist with marks.  The column of wires is as wide as the last wire. -/
def markedListing (nl : Netlist) (marks : List (Int × Nat)) : String :=
  let title := nl.name
  let total := nl.size
  let column := (toString (total - 1)).length
  let lines := nl.gates.toList.zipIdx.map fun (gate, wire) => gateLine column marks wire gate
  "\n".intercalate (s!"# {title}: {total} gates" :: lines)

/-- The listing of a netlist with chosen outputs. -/
def listing (nl : Netlist) (outputs : List Datum) : Except Error String := do
  let marks ← outputMarks outputs
  pure (nl.markedListing marks)

end CarrySave.Netlist
