/-
Module: CarrySave.Proofs.Netlist.Cone
Layer: Proofs
Purpose: The wires that a wire is computed from.  The cone of a wire is the wire itself with the
  cones of the operands of its gate.  In an ordered netlist a cone never reaches later wires, so
  one more gate changes the cone of no other wire.
Main exports: Netlist.Cone, Netlist.Cone.le, Netlist.cone_push_of_lt, Netlist.cone_push_size_iff
-/
import CarrySave.Proofs.Netlist.Growth

namespace CarrySave.Netlist

/-- The second wire is in the cone of the first: it is the first, or it is in the cone of one of
the operands of its gate. -/
inductive Cone (nl : Netlist) : Nat → Nat → Prop where
  | self (wire : Nat) : Cone nl wire wire
  | through {wire operand source : Nat} {gate : Gate} (found : nl.gates[wire]? = some gate)
      (member : operand ∈ gate.operands) (rest : Cone nl operand source) : Cone nl wire source

variable {nl : Netlist} {wire source : Nat}

/-- A cone has no later wires. -/
theorem Cone.le (ordered : nl.Ordered) (cone : nl.Cone wire source) : source ≤ wire := by
  induction cone with
  | self => exact Nat.le_refl _
  | through found member _ inductionHypothesis =>
      exact Nat.le_trans inductionHypothesis (Nat.le_of_lt (ordered _ _ found _ member))

/-- The cone of a wire with a gate, one operand further. -/
theorem cone_iff {gate : Gate} (found : nl.gates[wire]? = some gate) :
    nl.Cone wire source ↔ source = wire ∨ ∃ operand ∈ gate.operands, nl.Cone operand source := by
  constructor
  · intro cone
    cases cone with
    | self => exact .inl rfl
    | through foundAgain member rest =>
        rw [found] at foundAgain
        cases foundAgain
        exact .inr ⟨_, member, rest⟩
  · rintro (rfl | ⟨operand, member, rest⟩)
    · exact .self _
    · exact .through found member rest

/-- One more gate leaves the cones of all other wires alone. -/
theorem cone_push_of_lt {gate : Gate} (ordered : nl.Ordered) (below : wire < nl.size) :
    (nl.push gate).Cone wire source ↔ nl.Cone wire source := by
  constructor
  · intro cone
    induction cone with
    | self => exact .self _
    | through found member _ inductionHypothesis =>
        rw [getElem?_push_of_lt below] at found
        have earlier := ordered _ _ found _ member
        exact .through found member (inductionHypothesis (Nat.lt_trans earlier below))
  · intro cone
    induction cone with
    | self => exact .self _
    | through found member _ inductionHypothesis =>
        have earlier := ordered _ _ found _ member
        refine .through ?_ member (inductionHypothesis (Nat.lt_trans earlier below))
        rw [getElem?_push_of_lt below, found]

/-- The cone of the wire of one more gate. -/
theorem cone_push_size_iff {gate : Gate} (ordered : (nl.push gate).Ordered) :
    (nl.push gate).Cone nl.size source ↔
      source = nl.size ∨ ∃ operand ∈ gate.operands, nl.Cone operand source := by
  obtain ⟨orderedBefore, below⟩ := ordered_push_iff.mp ordered
  rw [cone_iff (getElem?_push_size nl gate)]
  have same : (∃ operand ∈ gate.operands, (nl.push gate).Cone operand source) ↔
      ∃ operand ∈ gate.operands, nl.Cone operand source :=
    exists_congr fun operand => and_congr_right fun member =>
      cone_push_of_lt orderedBefore (below operand member)
  rw [same]

end CarrySave.Netlist
