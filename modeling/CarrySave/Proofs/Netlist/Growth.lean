/-
Module: CarrySave.Proofs.Netlist.Growth
Layer: Proofs
Purpose: How netlists grow.  Whatever builds only ever adds gates, and each gate it adds uses
  wires that exist by then.  `Netlist.Grows` records such a growth gate by gate.  Wires keep
  their gates, and the order of creation stays an order of evaluation.
Main exports: Netlist.Grows, Netlist.Grows.trans, Netlist.Grows.getElem?_eq,
  Netlist.Grows.ordered, Netlist.getElem?_push_cases, Netlist.push_induction, Builder.Growing,
  Builder.growing_mint
-/
import CarrySave.Netlist.Builder
import Mathlib.Data.List.Induction

namespace CarrySave

namespace Netlist

/-! ### One more gate -/

/-- A netlist with one more gate has that gate on its last wire. -/
@[simp] theorem getElem?_push_size (nl : Netlist) (gate : Gate) :
    (nl.push gate).gates[nl.size]? = some gate := by
  simp [push, size]

/-- One more gate leaves the gates of all other wires alone. -/
theorem getElem?_push_of_lt {nl : Netlist} {wire : Nat} (below : wire < nl.size) (gate : Gate) :
    (nl.push gate).gates[wire]? = nl.gates[wire]? := by
  have notLast : wire ≠ nl.gates.size := Nat.ne_of_lt below
  simp [push, Array.getElem?_push, notLast]

/-- A wire has a gate exactly when it exists. -/
theorem lt_size_of_getElem? {nl : Netlist} {wire : Nat} {gate : Gate}
    (found : nl.gates[wire]? = some gate) : wire < nl.size := by
  obtain ⟨below, _⟩ := Array.getElem?_eq_some_iff.mp found
  exact below

/-- With one more gate, a wire has a gate from before, or it is the last one and has that gate. -/
theorem getElem?_push_cases {nl : Netlist} {last gate : Gate} {wire : Nat}
    (found : (nl.push last).gates[wire]? = some gate) :
    nl.gates[wire]? = some gate ∨ (wire = nl.size ∧ gate = last) := by
  have inside := lt_size_of_getElem? found
  rw [size_push] at inside
  rcases Nat.lt_succ_iff_lt_or_eq.mp inside with earlier | rfl
  · rw [getElem?_push_of_lt earlier] at found
    exact .inl found
  · rw [getElem?_push_size] at found
    exact .inr ⟨rfl, (Option.some.inj found).symm⟩

/-- What holds without gates, and with one more gate whenever it held before it, holds of
all netlists. -/
theorem push_induction {motive : Netlist → Prop} (empty : ∀ name, motive { name })
    (push : ∀ (nl : Netlist) (gate : Gate), motive nl → motive (nl.push gate)) (nl : Netlist) :
    motive nl := by
  obtain ⟨name, ⟨gates⟩⟩ := nl
  induction gates using List.reverseRecOn with
  | nil => exact empty name
  | append_singleton gates gate inductionHypothesis =>
      have pushed := push _ gate inductionHypothesis
      simpa [Netlist.push] using pushed

/-- A netlist with one more gate is ordered exactly when it was ordered before and the gate
uses wires that existed then. -/
theorem ordered_push_iff {nl : Netlist} {gate : Gate} :
    (nl.push gate).Ordered ↔ nl.Ordered ∧ ∀ operand ∈ gate.operands, operand < nl.size := by
  constructor
  · intro ordered
    constructor
    · intro wire other found operand member
      have below := lt_size_of_getElem? found
      exact ordered wire other (by rw [getElem?_push_of_lt below, found]) operand member
    · intro operand member
      exact ordered nl.size gate (getElem?_push_size nl gate) operand member
  · rintro ⟨ordered, below⟩ wire other found operand member
    rcases getElem?_push_cases found with earlier | ⟨rfl, rfl⟩
    · exact ordered wire other earlier operand member
    · exact below operand member

theorem ordered_empty (name : String) : Ordered { name } := by
  intro wire gate found
  simp at found

/-! ### Growth -/

/-- A netlist grows gate by gate.  Each new gate uses wires that exist before it. -/
inductive Grows (start : Netlist) : Netlist → Prop where
  | refl : Grows start start
  | push {grown : Netlist} (gate : Gate) (growth : Grows start grown)
      (below : ∀ operand ∈ gate.operands, operand < grown.size) :
      Grows start (grown.push gate)

namespace Grows

theorem trans {first middle last : Netlist} (one : first.Grows middle)
    (two : middle.Grows last) : first.Grows last := by
  induction two with
  | refl => exact one
  | push gate _ below inductionHypothesis => exact .push gate inductionHypothesis below

theorem size_le {start grown : Netlist} (growth : start.Grows grown) :
    start.size ≤ grown.size := by
  induction growth with
  | refl => exact Nat.le_refl _
  | push gate _ _ inductionHypothesis =>
      rw [size_push]
      exact Nat.le_succ_of_le inductionHypothesis

/-- A wire keeps its gate. -/
theorem getElem?_eq {start grown : Netlist} (growth : start.Grows grown) {wire : Nat}
    (below : wire < start.size) : grown.gates[wire]? = start.gates[wire]? := by
  induction growth with
  | refl => rfl
  | push gate growth _ inductionHypothesis =>
      have still := Nat.lt_of_lt_of_le below growth.size_le
      rw [getElem?_push_of_lt still, inductionHypothesis]

/-- The order of creation stays an order of evaluation. -/
theorem ordered {start grown : Netlist} (growth : start.Grows grown) (ordered : start.Ordered) :
    grown.Ordered := by
  induction growth with
  | refl => exact ordered
  | push gate _ below inductionHypothesis =>
      exact ordered_push_iff.mpr ⟨inductionHypothesis, below⟩

end Grows

end Netlist

/-! ### What actions leave behind

An action may fail, and then it leaves behind what it had done before.  To say that it only
ever moves its state along a relation is to say it of both outcomes. -/

section Leaving

variable {ε σ α β : Type}

/-- The state that an action leaves, whether it succeeds or fails. -/
def leaving (action : EStateM ε σ α) (state : σ) : σ :=
  match action.run state with
  | .ok _ later => later
  | .error _ later => later

/-- An action moves every state along a relation, whether it succeeds or fails. -/
def Moves (R : σ → σ → Prop) (action : EStateM ε σ α) : Prop :=
  ∀ state, R state (leaving action state)

variable {R : σ → σ → Prop}

theorem moves_pure [Std.Refl R] (value : α) : Moves R (pure value : EStateM ε σ α) :=
  fun state => Std.Refl.refl state

theorem moves_throw [Std.Refl R] (error : ε) : Moves R (throw error : EStateM ε σ α) :=
  fun state => Std.Refl.refl state

/-- Two actions in a row move a state in two steps, or in one if the first of them fails. -/
theorem moves_bind [Trans R R R] {first : EStateM ε σ α} {next : α → EStateM ε σ β}
    (one : Moves R first) (two : ∀ value, Moves R (next value)) : Moves R (first >>= next) := by
  intro state
  have start := one state
  simp only [leaving, EStateM.run_bind] at start ⊢
  cases outcome : first.run state with
  | ok value later =>
      rw [outcome] at start
      exact Trans.trans start (two value later)
  | error error later =>
      rw [outcome] at start
      exact start

end Leaving

namespace Builder

variable {α β : Type}

instance : Std.Refl Netlist.Grows := ⟨fun _ => .refl⟩

instance : Trans Netlist.Grows Netlist.Grows Netlist.Grows := ⟨Netlist.Grows.trans⟩

/-- The builder only ever makes a netlist grow, also when it fails. -/
abbrev Growing (builder : Builder α) : Prop :=
  Moves Netlist.Grows builder

/-- Adding one gate makes a netlist grow if the gate is described on wires that exist. -/
theorem growing_mint {describe : Netlist → Except Error Gate}
    (sound : ∀ nl gate, describe nl = .ok gate → ∀ operand ∈ gate.operands, operand < nl.size) :
    Growing (mint describe) := by
  intro nl
  simp only [leaving, run_mint]
  cases described : describe nl with
  | ok gate => exact .push gate .refl (sound nl gate described)
  | error error => exact .refl

end Builder

end CarrySave
