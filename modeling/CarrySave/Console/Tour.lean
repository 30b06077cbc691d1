/-
Module: CarrySave.Console.Tour
Layer: Console
Purpose: A guided tour in six stations: cost models, adder cells, column compression, the
  growth of costs with width, exhaustive checks, and the graph of a circuit.  Every number
  shown is computed by the library.
Main exports: page, headingLines, Tour.costModels, Tour.adderCells, Tour.compression,
  Tour.scaling, Tour.verification, Tour.graph, Tour.everything
-/
import CarrySave.Netlist.Graph
import CarrySave.Netlist.Listing
import CarrySave.Signal.Verification

namespace CarrySave

open Text

/-! ### Layout of pages -/

/-- Lines one under the other, each ended. -/
def page (lines : List String) : String :=
  String.join (lines.map (· ++ "\n"))

/-- The width of headings. -/
def pageWidth : Nat := 70

/-- A title between two rules, after an empty line. -/
def headingLines (rule : Char) (title : String) : List String :=
  ["", ruled rule pageWidth, title, ruled rule pageWidth]

/-- The width between the sides of a box. -/
def boxWidth : Nat := 68

/-- The upper edge of a box. -/
def boxTop : String := "╔" ++ ruled '═' boxWidth ++ "╗"

/-- The lower edge of a box. -/
def boxBottom : String := "╚" ++ ruled '═' boxWidth ++ "╝"

/-- A line of a box whose text stands `indent` characters from the side. -/
def boxLine (indent : Nat) (text : String) : String :=
  "║" ++ alignLeft boxWidth (ruled ' ' indent ++ text) ++ "║"

/-- Numbers or words set to the right in columns of given widths. -/
def row (cells : List (Nat × String)) : String :=
  " ".intercalate (cells.map fun (width, text) => alignRight width text)

namespace Tour

/-- Let a builder work on an empty netlist of the given name. -/
def buildAlone {α : Type} (name : String) (builder : Builder α) : Except Error (α × Netlist) :=
  match builder.run { name } with
  | .ok value netlist => .ok (value, netlist)
  | .error error _ => .error error

/-! ### Stations -/

/-- The standard cost models. -/
def costModels : String :=
  page (headingLines '=' "DEMO 1: COST MODELS" ++
    CostModel.standard.flatMap (fun model => ["", model.summary]) ++
    [ ""
    , "Key insight:"
    , "  Adders are XOR-heavy: every half-adder has one XOR and one AND,"
    , "  so the AIG cost is well above the XAIG cost for the same netlist." ])

/-- The single value of an output in a table of bits. -/
def shownBit (signals : Array Signal) (wire : Nat) : Except Error String := do
  let value ← readOutputs signals [.wire wire]
  match value with
  | .one bit => pure (toString bit)
  | .many _ => pure ""

/-- The netlist of a full adder, with its inputs, its sum and its carry. -/
def fullAdderCell : Except Error ((List Nat × Nat × Nat) × Netlist) :=
  buildAlone "full-adder" do
    let inputs ← makeInputs "x" 3
    match inputs with
    | [x, y, z] => do
        let (sum, carry) ← fullAdder (.wire x) (.wire y) (.wire z)
        pure (inputs, sum, carry)
    | _ => throw .indexOutOfRange

/-- The netlist of a half adder. -/
def halfAdderCell : Except Error (List Nat × Netlist) :=
  buildAlone "half-adder" do
    let inputs ← makeInputs "p" 2
    match inputs with
    | [p, q] => do
        let _ ← halfAdder (.wire p) (.wire q)
        pure inputs
    | _ => throw .indexOutOfRange

/-- The truth table of a full adder, and what the two cells cost. -/
def adderCells : Except Error String := do
  let ((inputs, sum, carry), full) ← fullAdderCell
  let (_, half) ← halfAdderCell
  let rows ← (List.range 8).mapM fun (index : Nat) => do
    let assignment ← assignBits (inputs.map .wire) (.one index)
    let signals ← full.evaluate assignment
    let bits ← inputs.mapM (shownBit signals)
    let sumBit ← shownBit signals sum
    let carryBit ← shownBit signals carry
    pure (row (bits.map (3, ·) ++ [(5, sumBit), (7, carryBit)]))
  let halfXaig := CostModel.xaig.cost half
  let halfAig := CostModel.aig.cost half
  let fullXaig := CostModel.xaig.cost full
  let fullAig := CostModel.aig.cost full
  let listing ← full.listing [.wire sum, .wire carry]
  pure (page (headingLines '=' "DEMO 2: ADDER CELLS" ++
    ["", row [(3, "x"), (3, "y"), (3, "z"), (5, "sum"), (7, "carry")], ruled '-' 25] ++ rows ++
    [ ""
    , listing
    , ""
    , s!"Half-adder: XAIG={halfXaig}, AIG={halfAig}"
    , s!"Full-adder: XAIG={fullXaig}, AIG={fullAig}" ]))

/-- Seven wires in two columns, compressed, and the value of the bits that come out when
all of them carry a one. -/
def compression : Except Error String := do
  let ((inputs, bits), netlist) ← buildAlone "columns" do
    let low ← makeInputs "u" 5
    let high ← makeInputs "v" 2
    let bits ← compressColumns [low.map .wire, high.map .wire]
    pure (low ++ high, bits)
  let ones ← Assignment.ofPairs (inputs.map fun wire => (.wire wire, .one 1))
  let signals ← netlist.evaluate ones
  let values ← bits.mapM fun (weight, wire) => do
    match ← readOutputs signals [wire] with
    | .one bit => pure (weight, wire, bit)
    | .many _ => throw .indexOutOfRange
  let rows := values.map fun (weight, wire, bit) =>
    row [(8, toString (Nat.pow 2 weight)), (6, wire.display), (7, toString bit)]
  let total : Int :=
    values.foldl (fun (sum : Int) (weight, _, bit) => sum + bit * (Nat.pow 2 weight : Nat)) 0
  pure (page (headingLines '=' "DEMO 3: COLUMN COMPRESSION" ++
    [ ""
    , "Columns: 5 bits of weight 1, 2 bits of weight 2"
    , ""
    , row [(8, "Weight"), (6, "Wire"), (7, "Value")]
    , ruled '-' 25 ] ++ rows ++
    ["", s!"All inputs 1: expected 5 + 2*2 = 9, got {total}"]))

/-- The line of one design in the table of costs. -/
def costRow (design : Design) : Except Error String := do
  let circuit ← design.synthesize
  let report := circuit.report
  let overhead ← report.overhead
  pure (alignLeft 18 report.name ++ " " ++
    row [ (8, toString report.outputs.length), (8, toString circuit.netlist.size)
        , (8, toString report.xaigCost), (8, toString report.aigCost)
        , (9, overhead.toPlaces Report.overheadPlaces) ] ++ "x")

/-- The costs of all designs at growing widths. -/
def scaling : Except Error String := do
  let designs := [2, 4, 8, 16, 32].flatMap fun width : Int =>
    [Design.adder width, .popcount width, .multiplier width width]
  let rows ← designs.mapM costRow
  pure (page (headingLines '=' "DEMO 4: OPERATOR COST SCALING" ++
    [ ""
    , alignLeft 18 "Operator" ++ " " ++
        row [(8, "Outputs"), (8, "Gates"), (8, "XAIG"), (8, "AIG"), (10, "AIG/XAIG")]
    , ruled '-' 65 ] ++ rows ++
    [ ""
    , "Analysis:"
    , "  - Adders and popcounts grow linearly with width"
    , "  - Multipliers grow quadratically (one AND per partial product)" ]))

/-- The line of one design in the table of checks. -/
def checkRow (design : Design) : Except Error String := do
  let verdict ← design.verify
  let status := if verdict.passed then "PASS" else "FAIL"
  pure (alignLeft 18 verdict.report.name ++ " " ++
    row [(10, Decimal.grouped verdict.cases), (10, status)])

/-- Exhaustive checks of six small designs. -/
def verification : Except Error String := do
  let rows ← [ Design.adder 4, .adder 6, .popcount 8, .popcount 12, .multiplier 3 3
             , .multiplier 4 5 ].mapM checkRow
  pure (page (headingLines '=' "DEMO 5: EXHAUSTIVE VERIFICATION" ++
    ["", alignLeft 18 "Operator" ++ " " ++ row [(10, "Cases"), (10, "Status")], ruled '-' 42] ++
    rows))

/-- A table of numbers in braces. -/
def braced (table : Roster String Nat) : String :=
  "\x7b" ++ ", ".intercalate
    (table.entries.map fun (name, value) => quoted name ++ ": " ++ toString value) ++ "\x7d"

/-- A small multiplier as a report, a graph and a listing. -/
def graph : Except Error String := do
  let circuit ← Design.synthesize (.multiplier 2 2)
  let netlist := circuit.netlist
  let summary ← circuit.report.summary netlist
  let view := netlist.toGraph
  let nodes := view.nodeCount
  let links := view.links.length
  let comparison ← netlist.compareModels .xaig [.aig]
  let listing ← netlist.listing circuit.report.outputs
  pure (page (headingLines '=' "DEMO 6: GRAPH EXPORT" ++
    [ ""
    , summary
    , ""
    , s!"Graph: {nodes} nodes, {links} links"
    , "Costs: " ++ braced comparison.costs
    , ""
    , listing ]))

/-! ### The whole tour -/

/-- All stations in order, between a title and an end. -/
def everything : Except Error String := do
  let stations ← [pure costModels, adderCells, compression, scaling, verification, graph].mapM id
  let parted := stations.map fun station => station ++ page ["", ruled '─' pageWidth]
  pure (page [boxTop, boxLine 16 "ARITHMETIC SYNTHESIS DEMONSTRATION", boxBottom] ++
    String.join parted ++
    page ["", ruled '═' pageWidth, "DEMOS COMPLETE", ruled '═' pageWidth])

end Tour

end CarrySave
