/-
Module: CarrySave.Netlist.Cost
Layer: Netlists
Purpose: Prices of netlists.  A cost model prices each operator; inputs and buffers are
  free.  Two models are standard: one in which every operator is a gate of its own, and one
  in which only conjunction is and exclusive or takes three of them.
Main exports: CostModel, CostModel.ofPrices, CostModel.cost, CostModel.xaig,
  CostModel.aig, Comparison, Netlist.compareModels
-/
import CarrySave.Netlist.Query
import CarrySave.Decimal.Ratio

namespace CarrySave

/-- The price of one gate of each operator. -/
structure CostModel where
  name : String
  description : String := ""
  andPrice : Nat := 1
  orPrice : Nat := 1
  xorPrice : Nat := 1
deriving DecidableEq, Repr, Inhabited

namespace CostModel

/-- The price of one gate. -/
def price (model : CostModel) : Op → Nat
  | .and => model.andPrice
  | .or => model.orPrice
  | .xor => model.xorPrice

/-- A model from a table of prices.  Every operator must have one, and none may be
negative; prices are judged in the order of the table. -/
def ofPrices (name description : String) (prices : Roster Op Int) : Except Error CostModel :=
  let missing := Op.all.filter fun op => (prices.get? op).isNone
  let priceOf (op : Op) := ((prices.get? op).getD 0).toNat
  if missing ≠ [] then
    .error (.unpriced name missing)
  else
    match prices.entries.find? fun (_, price) => price < 0 with
    | some (op, price) => .error (.negativePrice op price)
    | none =>
        .ok
          { name, description, andPrice := priceOf .and, orPrice := priceOf .or
            xorPrice := priceOf .xor }

/-- The price of a gate of any kind. -/
def gatePrice (model : CostModel) (gate : Gate) : Nat :=
  match gate.op? with
  | some op => model.price op
  | none => 0

/-- The price of a netlist: the sum of the prices of its gates. -/
def cost (model : CostModel) (nl : Netlist) : Nat :=
  nl.gates.foldl (fun total gate => total + model.gatePrice gate) 0

/-- Prices of an inverter graph with conjunctions and exclusive ors: every operator is one
gate. -/
def xaig : CostModel where
  name := "XAIG"
  description := "AND/XOR-inverter graph: XOR is a native gate"

/-- Prices of an and-inverter graph.  Only conjunction is a gate, and inversion is free, so
that a disjunction is one gate and an exclusive or three. -/
def aig : CostModel where
  name := "AIG"
  description := "AND-inverter graph: OR by De Morgan, XOR from three ANDs"
  xorPrice := 3

/-- The models that are compared when none are named. -/
def standard : List CostModel := [xaig, aig]

/-- A model's description and prices in three lines. -/
def summary (model : CostModel) : String :=
  let title := model.name
  let about := model.description
  let prices := ", ".intercalate (Op.all.map fun op => op.name ++ "=" ++ toString (model.price op))
  s!"CostModel '{title}':\n  {about}\n  Prices: {prices}"

/-- A model as a short term. -/
def text (model : CostModel) : String :=
  let title := model.name
  s!"CostModel('{title}')"

end CostModel

/-! ### Comparison -/

/-- The ratio of two integers as a real number. -/
def ratio (numerator denominator : Int) : Except Error Binary64 :=
  match Decimal.ratio? numerator denominator with
  | some value => .ok value
  | none => .error .ratioTooLarge

/-- The ratio of a cost to a base, which is one when the base is zero. -/
def relativeCost (value base : Int) : Except Error Binary64 :=
  if base = 0 then .ok .one else ratio value base

/-- One netlist priced under several models.  Models of the same name count as one. -/
structure Comparison where
  baseline : String
  costs : Roster String Nat
  ratios : Roster String Binary64

/-- Price a netlist under several models, relative to the first of them. -/
def Netlist.compareModels (nl : Netlist) (first : CostModel) (others : List CostModel) :
    Except Error Comparison := do
  let models := first :: others
  let costs := Roster.ofList (models.map fun model => (model.name, model.cost nl))
  let base := (costs.get? first.name).getD 0
  let ratios ← costs.entries.mapM fun (name, value) => do
    let relative ← relativeCost value base
    pure (name, relative)
  pure { baseline := first.name, costs, ratios := ⟨ratios⟩ }

end CarrySave
