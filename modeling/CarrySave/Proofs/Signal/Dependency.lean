/-
Module: CarrySave.Proofs.Signal.Dependency
Layer: Proofs
Purpose: What the value of a wire depends on.  The links of the graph of a netlist lead from operands
  to the gates that use them, so the wires from which a wire is reached along links are those of its
  cone.  At settled levels a wire has the level that the inputs in its cone decide.
Main exports: Graph.Linked, Graph.Reaches, Netlist.linked_toGraph_iff, Netlist.reaches_toGraph_iff,
  Netlist.Settled.eq_of_cone, Netlist.value_of_cone
-/
import CarrySave.Netlist.Graph
import CarrySave.Proofs.Signal.CaseByCase
import Mathlib.Logic.Relation

namespace CarrySave

/-! ### Links -/

namespace Graph

/-- A link of the graph leads from one wire to another. -/
def Linked (graph : Graph) (source target : Nat) : Prop :=
  (.wire source, target) ∈ graph.links

/-- Links, any number of them, lead from one wire to another. -/
def Reaches (graph : Graph) : Nat → Nat → Prop :=
  Relation.ReflTransGen graph.Linked

end Graph

namespace Netlist

variable {nl : Netlist}

/-- The links of a netlist lead to each gate from its operands. -/
theorem linked_toGraph_iff {source target : Nat} :
    nl.toGraph.Linked source target ↔
      ∃ gate, nl.gates[target]? = some gate ∧ source ∈ gate.operands := by
  simp only [Graph.Linked, Graph.links, toGraph, List.mem_flatMap, List.mem_map, Prod.exists,
    List.mem_zipIdx_iff_getElem?, List.getElem?_map, Option.map_eq_some_iff, Prod.mk.injEq]
  constructor
  · rintro ⟨_, _, ⟨gate, found, rfl⟩, _, member, same, rfl⟩
    obtain ⟨operand, inside, rfl⟩ := List.mem_map.mp member
    obtain rfl : operand = source := by simpa [Datum.wire] using same
    exact ⟨gate, by simpa using found, inside⟩
  · rintro ⟨gate, found, inside⟩
    exact ⟨_, target, ⟨gate, by simpa using found, rfl⟩, _, List.mem_map_of_mem inside, rfl, rfl⟩

/-- Along the links of a netlist a wire is reached from the wires in its cone. -/
theorem reaches_toGraph_iff {source wire : Nat} :
    nl.toGraph.Reaches source wire ↔ nl.Cone wire source := by
  constructor
  · intro reaches
    induction reaches with
    | refl => exact .self source
    | tail _ link inductionHypothesis =>
        obtain ⟨gate, found, member⟩ := linked_toGraph_iff.mp link
        exact .through found member inductionHypothesis
  · intro cone
    induction cone with
    | self => exact .refl
    | through found member _ inductionHypothesis =>
        exact .tail inductionHypothesis (linked_toGraph_iff.mpr ⟨_, found, member⟩)

/-! ### Levels -/

/-- Levels that are settled and agree on the inputs in the cone of a wire agree on the wire.  The
induction is on the wire, since operands come before their gate. -/
theorem Settled.eq_of_cone {level other : Nat → Bool} (ordered : nl.Ordered)
    (settled : nl.Settled level) (otherSettled : nl.Settled other) {wire : Nat}
    (below : wire < nl.size)
    (same : ∀ source ∈ nl.inputs, nl.Cone wire source → level source = other source) :
    level wire = other wire := by
  induction wire using Nat.strongRecOn with
  | ind wire inductionHypothesis =>
      obtain ⟨gate, found⟩ : ∃ gate, nl.gates[wire]? = some gate :=
        ⟨_, Array.getElem?_eq_getElem below⟩
      have sameOperands : ∀ operand ∈ gate.operands, level operand = other operand := by
        intro operand member
        have earlier := ordered wire gate found operand member
        apply inductionHypothesis operand earlier (Nat.lt_trans earlier below)
        intro source input cone
        exact same source input (.through found member cone)
      have here := settled wire gate found
      have there := otherSettled wire gate found
      cases gate with
      | input label => exact same wire (mem_inputs_iff.mpr ⟨label, found⟩) (.self wire)
      | buffer source =>
          rw [Gate.Settled] at here there
          rw [here, there, sameOperands source (by simp [Gate.operands])]
      | logic op a b =>
          rw [Gate.Settled] at here there
          rw [here, there, sameOperands a (by simp [Gate.operands]),
            sameOperands b (by simp [Gate.operands])]

end Netlist

/-! ### Assignments that agree -/

/-- Two assignments give a wire numbers with the same lowest bit. -/
def Assignment.AgreeOn (first second : Assignment) (wire : Nat) : Prop :=
  ∃ x y : Int, first.get? wire = some (.one x) ∧ second.get? wire = some (.one y) ∧ x % 2 = y % 2

theorem Assignment.AgreeOn.level_eq {first second : Assignment} {wire : Nat}
    (agree : first.AgreeOn second wire) : first.level wire = second.level wire := by
  obtain ⟨x, y, givenFirst, givenSecond, same⟩ := agree
  rw [level, level, givenFirst, givenSecond]
  change bitOf x 0 = bitOf y 0
  rw [← bitOf_emod_two, same, bitOf_emod_two]

/-- The value of a wire depends on no inputs but those from which links of the graph lead to it.
Let all inputs of a netlist that requests lead to be given bytes in two ways.  If the two agree
modulo two on every input from which links lead to a wire, then the wire evaluates to the same bit.
So if they agree on all inputs but one and a wire evaluates to different bits, links lead to it from
that one. -/
theorem Netlist.value_of_cone {nl : Netlist} {first second : Assignment} (reachable : nl.Reachable)
    (coversFirst : first.Covers nl) (coversSecond : second.Covers nl) :
    ∃ signals others : Array Signal,
      nl.evaluate first = .ok signals ∧ nl.evaluate second = .ok others ∧
      (∀ wire < nl.size,
        (∀ source ∈ nl.inputs, nl.toGraph.Reaches source wire → first.AgreeOn second source) →
          ∃ bit, signals[wire]? = some (.one bit) ∧ others[wire]? = some (.one bit)) ∧
      ∀ wire < nl.size, ∀ source,
        (∀ other ∈ nl.inputs, other ≠ source → first.AgreeOn second other) →
          signals[wire]? ≠ others[wire]? → nl.toGraph.Reaches source wire := by
  have ordered := reachable.ordered
  obtain ⟨level, evaluated, settled, assigned⟩ := evaluate_settled ordered coversFirst
  obtain ⟨other, evaluatedOther, settledOther, assignedOther⟩ :=
    evaluate_settled ordered coversSecond
  have same : ∀ wire < nl.size,
      (∀ source ∈ nl.inputs, nl.toGraph.Reaches source wire → first.AgreeOn second source) →
        ∃ bit, (signalsOf nl.size level)[wire]? = some (.one bit) ∧
          (signalsOf nl.size other)[wire]? = some (.one bit) := by
    intro wire below agree
    have equal : level wire = other wire := settled.eq_of_cone ordered settledOther below
      fun source input cone => by
        rw [assigned source input, assignedOther source input]
        exact (agree source input (reaches_toGraph_iff.mpr cone)).level_eq
    exact ⟨level wire, getElem?_signalsOf below level, equal ▸ getElem?_signalsOf below other⟩
  refine ⟨_, _, evaluated, evaluatedOther, same, ?_⟩
  intro wire below source agree differ
  by_contra unreached
  obtain ⟨bit, one, two⟩ := same wire below fun input member reaches =>
    agree input member fun equal => unreached (equal ▸ reaches)
  exact differ (one.trans two.symm)

/-- Bytes for three inputs. -/
def oneWay : Assignment :=
  .ofList [(0, .one 1), (1, .one 255), (2, .one 3)]

/-- Bytes with the same lowest bits for the first two inputs, and not for the third. -/
def otherWay : Assignment :=
  .ofList [(0, .one 7), (1, .one 1), (2, .one 4)]

/-- No links lead from the third input to the gate of the other two, so its copy is the same. -/
theorem Netlist.value_of_cone_sharedGate :
    sharedGate.Reachable ∧ oneWay.Covers sharedGate ∧ otherWay.Covers sharedGate ∧
    ¬oneWay.AgreeOn otherWay 2 ∧
    ∃ signals others : Array Signal,
      sharedGate.evaluate oneWay = .ok signals ∧ sharedGate.evaluate otherWay = .ok others ∧
      ∃ bit, signals[4]? = some (.one bit) ∧ others[4]? = some (.one bit) := by
  have coversOne : oneWay.Covers sharedGate := by
    intro wire input
    rcases mem_inputs_sharedGate input with rfl | rfl | rfl <;>
      exact ⟨_, rfl, by decide, by decide⟩
  have coversOther : otherWay.Covers sharedGate := by
    intro wire input
    rcases mem_inputs_sharedGate input with rfl | rfl | rfl <;>
      exact ⟨_, rfl, by decide, by decide⟩
  have apart : ¬oneWay.AgreeOn otherWay 2 := by
    rintro ⟨x, y, givenOne, givenOther, same⟩
    cases givenOne
    cases givenOther
    cases same
  have copied : sharedGate.gates[4]? = some (.buffer 3) := rfl
  have gate : sharedGate.gates[3]? = some (.logic .and 0 1) := rfl
  have unreached : ¬sharedGate.Cone 4 2 := by
    intro cone
    obtain self | ⟨source, member, rest⟩ := (cone_iff copied).mp cone
    · cases self
    obtain rfl : source = 3 := by simpa [Gate.operands] using member
    obtain self | ⟨operand, inside, last⟩ := (cone_iff gate).mp rest
    · cases self
    have later := last.le sharedGate_reachable.ordered
    simp only [Gate.operands, List.mem_cons, List.not_mem_nil, or_false] at inside
    omega
  obtain ⟨signals, others, evaluated, evaluatedOther, same, -⟩ :=
    value_of_cone sharedGate_reachable coversOne coversOther
  refine ⟨sharedGate_reachable, coversOne, coversOther, apart, signals, others, evaluated,
    evaluatedOther, same 4 (by decide) ?_⟩
  intro source input reaches
  rcases mem_inputs_sharedGate input with rfl | rfl | rfl
  · exact ⟨_, _, rfl, rfl, rfl⟩
  · exact ⟨_, _, rfl, rfl, rfl⟩
  · exact absurd (reaches_toGraph_iff.mp reaches) unreached

end CarrySave
