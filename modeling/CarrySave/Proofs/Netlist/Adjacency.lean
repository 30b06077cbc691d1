/-
Module: CarrySave.Proofs.Netlist.Adjacency
Layer: Proofs
Purpose: The neighbors of a netlist's graph.  Writing links into the lists of neighbors leaves at each
  node the other ends of the links at it, in the order of the links.  Links of a netlist lead from
  earlier wires to later ones, by target, so the neighbors of a wire are its operands and then its
  users.
Main exports: Netlist.wireLinks, Netlist.wireLinks_push, Graph.endsAt, Graph.foldlM_addLink,
  Graph.count_endsAt, Netlist.neighborsOf, Netlist.neighbors_toGraph, Netlist.usersOf,
  Netlist.neighborsOf_eq, Netlist.neighbors_symmetric
-/
import CarrySave.Netlist.Graph
import CarrySave.Proofs.Signal.CaseByCase
import Mathlib.Algebra.BigOperators.Group.List.Basic

namespace CarrySave

/-! ### Links between wires -/

namespace Netlist

/-- The links of a netlist as pairs of wires: to each gate from its operands, gate by gate. -/
def wireLinks (nl : Netlist) : List (Nat × Nat) :=
  nl.gates.toList.zipIdx.flatMap fun (gate, wire) => gate.operands.map fun operand => (operand, wire)

/-- A link between wires as a link of the graph. -/
def linkOf (link : Nat × Nat) : Datum × Nat :=
  (.wire link.1, link.2)

theorem links_toGraph (nl : Netlist) : nl.toGraph.links = nl.wireLinks.map linkOf := by
  simp [Graph.links, toGraph, wireLinks, List.zipIdx_map, List.flatMap_map, List.map_flatMap,
    Function.comp_def, linkOf]

@[simp] theorem wireLinks_empty (name : String) : wireLinks { name } = [] := rfl

/-- One more gate adds the links from its operands. -/
theorem wireLinks_push (nl : Netlist) (gate : Gate) :
    (nl.push gate).wireLinks =
      nl.wireLinks ++ gate.operands.map fun operand => (operand, nl.size) := by
  simp [wireLinks, push, List.zipIdx_append, size]

theorem getElem?_of_mem_zipIdx {nl : Netlist} {place : Gate × Nat}
    (listed : place ∈ nl.gates.toList.zipIdx) : nl.gates[place.2]? = some place.1 := by
  simpa [List.mem_zipIdx_iff_getElem?] using listed

/-- In an ordered netlist links lead from earlier wires to later ones. -/
theorem mem_wireLinks {nl : Netlist} (ordered : nl.Ordered) {link : Nat × Nat}
    (member : link ∈ nl.wireLinks) : link.1 < link.2 ∧ link.2 < nl.size := by
  obtain ⟨place, listed, inside⟩ := List.mem_flatMap.mp member
  obtain ⟨operand, used, rfl⟩ := List.mem_map.mp inside
  have found := getElem?_of_mem_zipIdx listed
  exact ⟨ordered _ _ found operand used, lt_size_of_getElem? found⟩

end Netlist

/-! ### Writing links into lists -/

namespace Graph

open Netlist (linkOf)

/-- The other ends of a link at a node: its source if it leads there, and its target if it leads away
from there. -/
def endsAt (node : Nat) (link : Nat × Nat) : List Nat :=
  (if link.2 = node then [link.1] else []) ++ (if link.1 = node then [link.2] else [])

/-- A link between nodes that exist is written at both of its ends. -/
theorem addLink_linkOf {lists : Array (Array Datum)} {link : Nat × Nat}
    (inside : link.1 < lists.size ∧ link.2 < lists.size) :
    ∃ written, addLink lists (linkOf link) = .ok written ∧ written.size = lists.size ∧
      ∀ node : Nat, written[node]? =
        lists[node]?.map fun row => row ++ ((endsAt node link).map .wire).toArray := by
  obtain ⟨source, target⟩ := link
  have here : position lists.size target = .ok target := position_wire inside.2
  have there : (Datum.wire source).position lists.size = .ok source := position_wire inside.1
  refine ⟨(lists.modify target (·.push (.wire source))).modify source (·.push (.wire target)),
    ?_, ?_, ?_⟩
  · simp only [addLink, linkOf, here, there, bind, Except.bind, pure, Except.pure]
  · simp
  · intro node
    simp only [Array.getElem?_modify, endsAt]
    cases lists[node]? with
    | none => by_cases source = node <;> by_cases target = node <;> simp [*]
    | some row =>
        by_cases isSource : source = node <;> by_cases isTarget : target = node <;>
          simp [isSource, isTarget, Array.push_eq_append, -Array.append_singleton]

/-- Links between nodes that exist are written without fail, and each node is left with the other ends
of the links at it, in order. -/
theorem foldlM_addLink {links : List (Nat × Nat)} {lists : Array (Array Datum)}
    (inside : ∀ link ∈ links, link.1 < lists.size ∧ link.2 < lists.size) :
    ∃ written, (links.map linkOf).foldlM addLink lists = .ok written ∧
      written.size = lists.size ∧
      ∀ node : Nat, written[node]? =
        lists[node]?.map fun row => row ++ ((links.flatMap (endsAt node)).map .wire).toArray := by
  induction links generalizing lists with
  | nil => exact ⟨lists, rfl, rfl, fun node => by simp⟩
  | cons link rest inductionHypothesis =>
      obtain ⟨first, others⟩ := List.forall_mem_cons.mp inside
      obtain ⟨middle, added, sameSize, entries⟩ := addLink_linkOf first
      obtain ⟨written, continued, size, later⟩ := inductionHypothesis (sameSize ▸ others)
      refine ⟨written, ?_, size.trans sameSize, ?_⟩
      · simp only [List.map_cons, List.foldlM_cons, added, bind, Except.bind, continued]
      · intro node
        rw [later, entries, Option.map_map]
        simp [Function.comp_def]

/-- A node is listed at another once for each link between them, in either direction. -/
theorem count_endsAt (links : List (Nat × Nat)) (node other : Nat) :
    (links.flatMap (endsAt node)).count other =
      links.count (node, other) + links.count (other, node) := by
  induction links with
  | nil => rfl
  | cons link rest inductionHypothesis =>
      obtain ⟨source, target⟩ := link
      have ends : (endsAt node (source, target)).count other =
          (if (source, target) = (node, other) then 1 else 0) +
            if (source, target) = (other, node) then 1 else 0 := by
        simp only [endsAt, Prod.mk.injEq, List.count_append]
        by_cases isSource : source = node <;> by_cases isTarget : target = node <;>
          simp [isSource, isTarget, List.count_singleton]
      rw [List.flatMap_cons, List.count_append, inductionHypothesis, ends, List.count_cons,
        List.count_cons]
      simp only [beq_iff_eq]
      omega

/-- A link between nodes that exist has two ends. -/
theorem sum_length_endsAt_link {count : Nat} {link : Nat × Nat}
    (inside : link.1 < count ∧ link.2 < count) :
    ((List.range count).map fun node => (endsAt node link).length).sum = 2 := by
  have once : ∀ {wire : Nat}, wire < count →
      ((List.range count).map fun node => if wire = node then 1 else 0).sum = 1 := by
    intro wire below
    have counted : (List.range count).count wire = 1 :=
      List.count_eq_one_of_mem List.nodup_range (List.mem_range.mpr below)
    simp only [eq_comm (a := wire)]
    rw [List.sum_map_ite, List.filter_eq]
    simp [counted]
  have ends : ∀ node, (endsAt node link).length =
      (if link.2 = node then 1 else 0) + if link.1 = node then 1 else 0 := by
    intro node
    by_cases isSource : link.1 = node <;> by_cases isTarget : link.2 = node <;>
      simp [endsAt, isSource, isTarget]
  simp only [ends, List.sum_map_add, once inside.1, once inside.2]

/-- The other ends at all nodes are twice as many as the links. -/
theorem sum_length_endsAt {count : Nat} {links : List (Nat × Nat)}
    (inside : ∀ link ∈ links, link.1 < count ∧ link.2 < count) :
    ((List.range count).map fun node => (links.flatMap (endsAt node)).length).sum =
      2 * links.length := by
  induction links with
  | nil => simp
  | cons link rest inductionHypothesis =>
      obtain ⟨first, others⟩ := List.forall_mem_cons.mp inside
      simp only [List.flatMap_cons, List.length_append, List.sum_map_add,
        sum_length_endsAt_link first, inductionHypothesis others, List.length_cons]
      ring

end Graph

/-! ### Neighbors of wires -/

namespace Netlist

/-- The neighbors of a wire: the other ends of the links at it, link by link. -/
def neighborsOf (nl : Netlist) (wire : Nat) : List Nat :=
  nl.wireLinks.flatMap (Graph.endsAt wire)

/-- The users of a wire: the wires of the gates that have it as an operand, as often as they do. -/
def usersOf (nl : Netlist) (wire : Nat) : List Nat :=
  nl.gates.toList.zipIdx.flatMap fun (gate, user) => List.replicate (gate.operands.count wire) user

/-- The neighbors of all wires of an ordered netlist can be listed. -/
theorem neighbors_toGraph {nl : Netlist} (ordered : nl.Ordered) :
    nl.toGraph.neighbors =
      .ok ((Array.range nl.size).map fun wire => ((nl.neighborsOf wire).map .wire).toArray) := by
  have nodes : nl.toGraph.nodeCount = nl.size := by simp [Graph.nodeCount, toGraph]
  have inside : ∀ link ∈ nl.wireLinks, link.1 < (Array.replicate nl.size (#[] : Array Datum)).size ∧
      link.2 < (Array.replicate nl.size (#[] : Array Datum)).size := by
    intro link member
    obtain ⟨earlier, below⟩ := mem_wireLinks ordered member
    simpa using ⟨Nat.lt_trans earlier below, below⟩
  obtain ⟨written, filled, size, entries⟩ := Graph.foldlM_addLink inside
  rw [Graph.neighbors, links_toGraph, nodes, filled]
  congr 1
  apply Array.ext_getElem?
  intro wire
  rw [entries]
  by_cases below : wire < nl.size <;> simp [below, neighborsOf]

theorem usersOf_push (nl : Netlist) (gate : Gate) (wire : Nat) :
    (nl.push gate).usersOf wire =
      nl.usersOf wire ++ List.replicate (gate.operands.count wire) nl.size := by
  simp [usersOf, push, List.zipIdx_append, size]

theorem mem_usersOf {nl : Netlist} {wire user : Nat} (member : user ∈ nl.usersOf wire) :
    user < nl.size := by
  obtain ⟨place, listed, repeated⟩ := List.mem_flatMap.mp member
  obtain rfl := List.eq_of_mem_replicate repeated
  exact lt_size_of_getElem? (getElem?_of_mem_zipIdx listed)

/-- No gate of an ordered netlist uses a wire that does not exist yet. -/
theorem usersOf_size {nl : Netlist} (ordered : nl.Ordered) : nl.usersOf nl.size = [] := by
  refine List.flatMap_eq_nil_iff.mpr fun (gate, user) listed => ?_
  have found := getElem?_of_mem_zipIdx listed
  have never : nl.size ∉ gate.operands := fun member =>
    Nat.lt_asymm (lt_size_of_getElem? found) (ordered _ _ found _ member)
  simp only [List.count_eq_zero_of_not_mem never, List.replicate_zero]

/-- Users are listed in order. -/
theorem pairwise_usersOf (nl : Netlist) (wire : Nat) : (nl.usersOf wire).Pairwise (· ≤ ·) := by
  induction nl using push_induction with
  | empty name => exact List.Pairwise.nil
  | push nl gate inductionHypothesis =>
      rw [usersOf_push, List.pairwise_append]
      refine ⟨inductionHypothesis, List.pairwise_replicate_of_refl, ?_⟩
      intro user member last repeated
      obtain rfl := List.eq_of_mem_replicate repeated
      exact Nat.le_of_lt (mem_usersOf member)

/-- A gate is listed as a user as often as it has the wire as an operand. -/
theorem count_usersOf {nl : Netlist} {user : Nat} {gate : Gate}
    (found : nl.gates[user]? = some gate) (wire : Nat) :
    (nl.usersOf wire).count user = gate.operands.count wire := by
  induction nl using push_induction with
  | empty name => simp at found
  | push nl last inductionHypothesis =>
      rw [usersOf_push, List.count_append]
      rcases getElem?_push_cases found with before | ⟨rfl, rfl⟩
      · rw [inductionHypothesis before, List.count_replicate]
        simp [Nat.ne_of_gt (lt_size_of_getElem? before)]
      · have absent : (nl.usersOf wire).count nl.size = 0 :=
          List.count_eq_zero_of_not_mem fun member => Nat.lt_irrefl _ (mem_usersOf member)
        rw [absent, List.count_replicate_self, Nat.zero_add]

/-- At the wire of its target a link to it has its source, and at any other wire the links to a target
have the target once for each operand that is this wire. -/
theorem flatMap_endsAt {operands : List Nat} {target : Nat}
    (earlier : ∀ operand ∈ operands, operand < target) (wire : Nat) :
    (operands.map fun operand => (operand, target)).flatMap (Graph.endsAt wire) =
      if target = wire then operands else List.replicate (operands.count wire) target := by
  induction operands with
  | nil => simp
  | cons operand rest inductionHypothesis =>
      obtain ⟨first, others⟩ := List.forall_mem_cons.mp earlier
      rw [List.map_cons, List.flatMap_cons, inductionHypothesis others]
      by_cases isTarget : target = wire
      · have other : operand ≠ wire := by
          rintro rfl
          exact Nat.ne_of_lt first isTarget.symm
        simp [Graph.endsAt, isTarget, other]
      · by_cases isOperand : operand = wire <;>
          simp [Graph.endsAt, isTarget, isOperand, List.replicate_succ]

/-- The neighbors of a wire of an ordered netlist are its operands and then its users.  One more gate
is a user of its operands, and no wire has used it yet. -/
theorem neighborsOf_eq {nl : Netlist} (ordered : nl.Ordered) {wire : Nat} {gate : Gate}
    (found : nl.gates[wire]? = some gate) :
    nl.neighborsOf wire = gate.operands ++ nl.usersOf wire := by
  induction nl using push_induction with
  | empty name => simp at found
  | push nl last inductionHypothesis =>
      obtain ⟨orderedBefore, below⟩ := ordered_push_iff.mp ordered
      have pushed : (nl.push last).neighborsOf wire = nl.neighborsOf wire ++
          (last.operands.map fun operand => (operand, nl.size)).flatMap (Graph.endsAt wire) := by
        rw [neighborsOf, wireLinks_push, List.flatMap_append, neighborsOf]
      rw [pushed, flatMap_endsAt below, usersOf_push]
      rcases getElem?_push_cases found with before | ⟨rfl, rfl⟩
      · rw [inductionHypothesis orderedBefore before,
          if_neg (Nat.ne_of_gt (lt_size_of_getElem? before)), List.append_assoc]
      · have unlinked : nl.neighborsOf nl.size = [] := by
          refine List.flatMap_eq_nil_iff.mpr fun link member => ?_
          obtain ⟨less, inside⟩ := mem_wireLinks orderedBefore member
          simp [Graph.endsAt, Nat.ne_of_lt inside, Nat.ne_of_lt (Nat.lt_trans less inside)]
        have unused : gate.operands.count nl.size = 0 :=
          List.count_eq_zero_of_not_mem fun member => Nat.lt_irrefl _ (below _ member)
        rw [unlinked, usersOf_size orderedBefore, unused, if_pos rfl]
        simp

/-- The adjacency view of a netlist's graph.  Links lead from earlier wires to later ones, and asking
for the neighbors never fails.  Each wire is listed at another once for every link between them, in
either direction, so the view is symmetric with multiplicity.  The neighbors of a wire are its operands
in order and then its users in increasing order, each as often as it uses the wire, and all lists
together are twice as long as there are links. -/
theorem neighbors_symmetric {nl : Netlist} (reachable : nl.Reachable) :
    ∃ (links : List (Nat × Nat)) (lists : Array (List Nat)),
      nl.toGraph.links = links.map (fun (source, target) => (.wire source, target)) ∧
      nl.toGraph.neighbors = .ok (lists.map fun row => (row.map .wire).toArray) ∧
      lists.size = nl.size ∧
      (∀ link ∈ links, link.1 < link.2 ∧ link.2 < nl.size) ∧
      (∀ (node other : Nat) (row : List Nat), lists[node]? = some row →
        row.count other = links.count (node, other) + links.count (other, node)) ∧
      (∀ (node other : Nat) (row otherRow : List Nat), lists[node]? = some row →
        lists[other]? = some otherRow → row.count other = otherRow.count node) ∧
      (∀ (node : Nat) (gate : Gate) (row : List Nat), nl.gates[node]? = some gate →
        lists[node]? = some row →
        ∃ users, row = gate.operands ++ users ∧ users.Pairwise (· ≤ ·) ∧
          (∀ user ∈ users, user < nl.size) ∧
          ∀ (user : Nat) (other : Gate), nl.gates[user]? = some other →
            users.count user = other.operands.count node) ∧
      (lists.toList.map List.length).sum = 2 * links.length := by
  have ordered := reachable.ordered
  have inside : ∀ link ∈ nl.wireLinks, link.1 < nl.size ∧ link.2 < nl.size := by
    intro link member
    obtain ⟨earlier, below⟩ := mem_wireLinks ordered member
    exact ⟨Nat.lt_trans earlier below, below⟩
  have rowOf : ∀ {node : Nat} {row : List Nat},
      ((Array.range nl.size).map nl.neighborsOf)[node]? = some row → row = nl.neighborsOf node := by
    intro node row listed
    by_cases below : node < nl.size
    · simpa [below, eq_comm] using listed
    · simp [below] at listed
  refine ⟨nl.wireLinks, (Array.range nl.size).map nl.neighborsOf, links_toGraph nl, ?_, by simp,
    fun link member => mem_wireLinks ordered member, ?_, ?_, ?_, ?_⟩
  · rw [neighbors_toGraph ordered, Array.map_map]
    rfl
  · intro node other row listed
    rw [rowOf listed]
    exact Graph.count_endsAt nl.wireLinks node other
  · intro node other row otherRow listed otherListed
    rw [rowOf listed, rowOf otherListed, neighborsOf, neighborsOf, Graph.count_endsAt,
      Graph.count_endsAt, Nat.add_comm]
  · intro node gate row found listed
    rw [rowOf listed]
    exact ⟨nl.usersOf node, neighborsOf_eq ordered found, pairwise_usersOf nl node,
      fun user => mem_usersOf, fun user other present => count_usersOf present node⟩
  · rw [Array.toList_map, Array.toList_range, List.map_map]
    exact Graph.sum_length_endsAt inside

/-- An input and a gate that uses it twice. -/
def doubledInput : Netlist where
  name := "doubled"
  gates := #[.input "x", .logic .xor 0 0]

theorem doubledInput_reachable : doubledInput.Reachable :=
  ⟨"doubled", [.input (.text "x"), .gate (.op .xor) (.wire 0) (.wire 0)], rfl⟩

/-- A gate that uses an input twice is listed twice at the input, and the input twice at the gate. -/
theorem neighbors_symmetric_doubledInput :
    doubledInput.Reachable ∧
    ∃ lists : Array (List Nat),
      doubledInput.toGraph.neighbors = .ok (lists.map fun row => (row.map .wire).toArray) ∧
      (∃ row, lists[0]? = some row ∧ row.count 1 = 2) ∧
      ∃ row, lists[1]? = some row ∧ row.count 0 = 2 := by
  refine ⟨doubledInput_reachable, ?_⟩
  obtain ⟨links, lists, -, listed, size, -, -, symmetric, exactly, -⟩ :=
    neighbors_symmetric doubledInput_reachable
  have present : ∀ node < 2, ∃ row, lists[node]? = some row := fun node below =>
    ⟨_, Array.getElem?_eq_getElem (size ▸ below)⟩
  obtain ⟨first, atInput⟩ := present 0 (by decide)
  obtain ⟨second, atGate⟩ := present 1 (by decide)
  obtain ⟨users, split, -, -, counted⟩ := exactly 0 _ first rfl atInput
  have twice : first.count 1 = 2 := by
    rw [split]
    exact counted 1 _ rfl
  exact ⟨lists, listed, ⟨first, atInput, twice⟩,
    ⟨second, atGate, symmetric 0 1 _ _ atInput atGate ▸ twice⟩⟩

end Netlist

end CarrySave
