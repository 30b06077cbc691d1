/-
Module: CarrySave.Netlist.Graph
Layer: Netlists
Purpose: The graph that a layout or drawing needs: a label for every node, its predecessors
  in order, the links between nodes, and for every node the nodes it is linked with.
Main exports: Graph, Graph.links, Graph.neighbors, Graph.text, Netlist.toGraph
-/
import CarrySave.Index
import CarrySave.Netlist.Query

namespace CarrySave

/-- A directed graph, given by the predecessors of each node.  Nothing is required of the
predecessors until the neighbors are asked for. -/
structure Graph where
  labels : List String := []
  preds : List (List Datum) := []
  kinds : List String := []
deriving Inhabited

namespace Graph

/-- How many nodes there are. -/
def nodeCount (graph : Graph) : Nat :=
  graph.labels.length

/-- The links as pairs of source and target, by target and then in operand order. -/
def links (graph : Graph) : List (Datum × Nat) :=
  graph.preds.zipIdx.flatMap fun (sources, node) => sources.map fun source => (source, node)

/-- Write both ends of a link into the lists of neighbors, that of the target first. -/
def addLink (lists : Array (Array Datum)) (link : Datum × Nat) :
    Except Error (Array (Array Datum)) := do
  let (source, target) := link
  let here ← position lists.size target
  let there ← source.position lists.size
  pure ((lists.modify here (·.push source)).modify there (·.push (.wire target)))

/-- For each node the nodes it is linked with, sources and targets in the order of the
links. -/
def neighbors (graph : Graph) : Except Error (Array (Array Datum)) :=
  graph.links.foldlM addLink (Array.replicate graph.nodeCount #[])

/-- A graph as a short term. -/
def text (graph : Graph) : String :=
  let nodes := graph.nodeCount
  let links := graph.links.length
  s!"GraphView(nodes={nodes}, links={links})"

end Graph

/-- The graph of a netlist: a node for every wire, a link for every operand. -/
def Netlist.toGraph (nl : Netlist) : Graph where
  labels := (List.range nl.size).map nl.wireName
  preds := nl.gates.toList.map fun gate => gate.operands.map .wire
  kinds := nl.gates.toList.map Gate.role

end CarrySave
