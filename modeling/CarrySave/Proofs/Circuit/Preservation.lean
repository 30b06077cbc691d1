/-
Module: CarrySave.Proofs.Circuit.Preservation
Layer: Proofs
Purpose: The value of a compression.  A cell neither makes nor loses value, so at settled levels
  the bits that a compression has given and the columns that it still has are together worth
  what its columns were worth at first.  In the end the bits alone are.
Main exports: weigh, worth, Compressor.Step.worth_eq, Compressor.Run.worth_eq,
  compressColumns_preserves_value
-/
import CarrySave.Proofs.Circuit.Reduction
import CarrySave.Proofs.Session.Reachable
import CarrySave.Proofs.Signal.Numbers
import Mathlib.Algebra.BigOperators.Ring.List
import Mathlib.Tactic.LinearCombination

namespace CarrySave

/-! ### Values of cells -/

/-- At settled levels a half adder gives the sum of its two bits. -/
theorem halfAdder_value {nl : Netlist} {x y : Nat} {level : Nat → Bool}
    (settled : (nl.withHalfAdder x y).Settled level) :
    bitValue (level nl.size) + 2 * bitValue (level (nl.size + 1)) =
      bitValue (level x) + bitValue (level y) := by
  obtain ⟨before, carry⟩ := Netlist.settled_push_iff.mp settled
  obtain ⟨_, sum⟩ := Netlist.settled_push_iff.mp before
  simp only [Gate.Settled, Netlist.size_push, Op.apply] at sum carry
  rw [sum, carry]
  cases level x <;> cases level y <;> rfl

/-- At settled levels a full adder gives the sum of its three bits. -/
theorem fullAdder_value {nl : Netlist} {x y z : Nat} {level : Nat → Bool}
    (settled : (nl.withFullAdder x y z).Settled level) :
    bitValue (level (nl.size + 2)) + 2 * bitValue (level (nl.size + 4)) =
      bitValue (level x) + bitValue (level y) + bitValue (level z) := by
  obtain ⟨cells, carry⟩ := Netlist.settled_push_iff.mp settled
  obtain ⟨before, secondCarry⟩ := Netlist.settled_push_iff.mp cells
  obtain ⟨firstCell, secondSum⟩ := Netlist.settled_push_iff.mp before
  obtain ⟨firstSumOnly, firstCarry⟩ := Netlist.settled_push_iff.mp firstCell
  obtain ⟨_, firstSum⟩ := Netlist.settled_push_iff.mp firstSumOnly
  simp only [Gate.Settled, Netlist.size_push, Op.apply] at firstSum firstCarry
  simp only [Gate.Settled, Netlist.size_push, Netlist.size_withHalfAdder, Op.apply]
    at secondSum secondCarry carry
  -- The two carries cannot both be set, so their disjunction is their sum.
  rw [carry, firstCarry, secondCarry, secondSum, firstSum]
  cases level x <;> cases level y <;> cases level z <;> rfl

/-! ### Values of columns -/

/-- What bits of given weights are worth. -/
def weigh (value : Nat → Int) (bits : List (Nat × Nat)) : Int :=
  (bits.map fun (weight, wire) => value wire * 2 ^ weight).sum

/-- What columns are worth, the lowest of which has a given weight. -/
def worth (value : Nat → Int) (lowest : Nat) (columns : List (List Nat)) : Int :=
  ((columns.zipIdx lowest).map fun (column, weight) =>
    (column.map fun wire => value wire * 2 ^ weight).sum).sum

@[simp] theorem weigh_nil (value : Nat → Int) : weigh value [] = 0 := rfl

@[simp] theorem weigh_cons (value : Nat → Int) (weight wire : Nat) (bits : List (Nat × Nat)) :
    weigh value ((weight, wire) :: bits) = value wire * 2 ^ weight + weigh value bits := by
  simp [weigh]

@[simp] theorem weigh_append (value : Nat → Int) (bits more : List (Nat × Nat)) :
    weigh value (bits ++ more) = weigh value bits + weigh value more := by
  simp [weigh]

@[simp] theorem worth_nil (value : Nat → Int) (lowest : Nat) : worth value lowest [] = 0 := rfl

@[simp] theorem worth_cons (value : Nat → Int) (lowest : Nat) (column : List Nat)
    (rest : List (List Nat)) :
    worth value lowest (column :: rest) =
      (column.map value).sum * 2 ^ lowest + worth value (lowest + 1) rest := by
  simp [worth, List.sum_map_mul_right]

/-- A deposited wire adds its value at the lowest weight. -/
theorem worth_deposit (value : Nat → Int) (lowest wire : Nat) (columns : List (List Nat)) :
    worth value lowest (Compressor.deposit wire columns) =
      value wire * 2 ^ lowest + worth value lowest columns := by
  cases columns with
  | nil => simp [Compressor.deposit]
  | cons column rest =>
      simp only [Compressor.deposit, worth_cons, List.map_append, List.sum_append, List.map_cons,
        List.map_nil, List.sum_cons, List.sum_nil]
      ring

namespace Compressor

/-- A step neither makes nor loses value. -/
theorem Step.worth_eq {before after : Stage} {bits : List (Nat × Nat)} {level : Nat → Bool}
    (step : Step before bits after) (settled : after.netlist.Settled level) :
    weigh (bitValue ∘ level) bits + worth (bitValue ∘ level) after.weight after.columns =
      worth (bitValue ∘ level) before.weight before.columns := by
  cases step with
  | skip => simp
  | keep => simp
  | @half _ weight =>
      have cell := halfAdder_value settled
      simp only [weigh_cons, weigh_nil, worth_deposit, worth_cons, List.map_cons, List.map_nil,
        List.sum_cons, List.sum_nil, Function.comp_apply]
      linear_combination 2 ^ weight * cell
  | @full _ weight =>
      have cell := fullAdder_value settled
      simp only [weigh_nil, worth_deposit, worth_cons, List.map_append, List.sum_append,
        List.map_cons, List.map_nil, List.sum_cons, List.sum_nil, Function.comp_apply]
      linear_combination 2 ^ weight * cell

/-- A run neither makes nor loses value: what it gives and what it leaves is worth what it
started from. -/
theorem Run.worth_eq {before after : Stage} {bits : List (Nat × Nat)} {level : Nat → Bool}
    (run : Run before bits after) (settled : after.netlist.Settled level) :
    weigh (bitValue ∘ level) bits + worth (bitValue ∘ level) after.weight after.columns =
      worth (bitValue ∘ level) before.weight before.columns := by
  induction run with
  | refl => simp
  | step head tail inductionHypothesis =>
      rw [weigh_append, ← head.worth_eq (settled.of_grows tail.grows),
        ← inductionHypothesis settled]
      ring

/-- Cells bring no new inputs. -/
theorem Step.inputs_eq {before after : Stage} {bits : List (Nat × Nat)}
    (step : Step before bits after) : after.netlist.inputs = before.netlist.inputs := by
  cases step with
  | skip => rfl
  | keep => rfl
  | half => simp [Netlist.withHalfAdder, Netlist.inputs_push]
  | full => simp [Netlist.withFullAdder, Netlist.withHalfAdder, Netlist.inputs_push]

theorem Run.extends {before after : Stage} {bits : List (Nat × Nat)}
    (run : Run before bits after) : before.netlist.Extends after.netlist := by
  refine ⟨run.grows, ?_⟩
  induction run with
  | refl => rfl
  | step head tail inductionHypothesis => rw [inductionHypothesis, head.inputs_eq]

end Compressor

open Compressor

/-- Reducing columns of existing wires preserves their value.  It never fails, it only adds gates to
the netlist, in which the wires of the columns are still there, and its bits are existing wires of
increasing weights.  Whatever bytes the inputs are given, the bits are worth what the columns were
worth. -/
theorem compressColumns_preserves_value {nl : Netlist} {columns : List (List Nat)}
    (reachable : nl.Reachable) (has : ∀ column ∈ columns, nl.Has column) :
    ∃ (bits : List (Nat × Nat)) (grown : Netlist),
      (compressColumns (references columns)).run nl =
        .ok (bits.map fun (weight, bit) => (weight, .wire bit)) grown ∧
      nl.Grows grown ∧
      (∀ column ∈ columns, grown.Has column) ∧
      (bits.map (·.1)).Pairwise (· < ·) ∧
      grown.Has (bits.map (·.2)) ∧
      ∀ assignment : Assignment, assignment.Covers nl →
        ∃ level : Nat → Bool,
          grown.evaluate assignment = .ok (signalsOf grown.size level) ∧
          weigh (bitValue ∘ level) bits = worth (bitValue ∘ level) 0 columns := by
  obtain ⟨bits, last, runs, run, empty⟩ := compressColumns_run has
  refine ⟨bits, last.netlist, runs, run.grows, has_columns_grows has run.grows,
    run.weights_increase.1, run.has_bits, ?_⟩
  intro assignment covers
  have ordered := run.grows.ordered reachable.ordered
  obtain ⟨level, evaluated, settled, _⟩ :=
    Netlist.evaluate_settled ordered (covers.extends run.extends)
  have kept := run.worth_eq settled
  rw [empty, worth_nil, add_zero] at kept
  exact ⟨level, evaluated, kept⟩

/-- One byte for each of three inputs. -/
def threeBytes : Assignment :=
  .ofList [(0, .one 1), (1, .one 0), (2, .one 255)]

theorem threeBytes_covers : threeBytes.Covers threeInputs := by
  intro wire member
  have known : wire = 0 ∨ wire = 1 ∨ wire = 2 := by
    have below := List.mem_range.mp (List.mem_filter.mp member).1
    simp only [threeInputs, Netlist.size, List.size_toArray, List.length_cons,
      List.length_nil] at below
    omega
  rcases known with rfl | rfl | rfl
  · exact ⟨1, rfl, by decide, by decide⟩
  · exact ⟨0, rfl, by decide, by decide⟩
  · exact ⟨255, rfl, by decide, by decide⟩

/-- Columns of three heights over the same wires, one of them empty and one that repeats a
wire, with one byte for each input. -/
theorem compressColumns_preserves_value_threeInputs :
    (∀ column ∈ [[0, 1, 2], [], [2, 2]], threeInputs.Has column) ∧
    threeBytes.Covers threeInputs ∧
    ∃ (bits : List (Nat × Nat)) (grown : Netlist) (level : Nat → Bool),
      (compressColumns (references [[0, 1, 2], [], [2, 2]])).run threeInputs =
        .ok (bits.map fun (weight, bit) => (weight, .wire bit)) grown ∧
      threeInputs.Grows grown ∧
      (∀ column ∈ [[0, 1, 2], [], [2, 2]], grown.Has column) ∧
      grown.evaluate threeBytes = .ok (signalsOf grown.size level) ∧
      weigh (bitValue ∘ level) bits = worth (bitValue ∘ level) 0 [[0, 1, 2], [], [2, 2]] := by
  have has : ∀ column ∈ [[0, 1, 2], [], [2, 2]], threeInputs.Has column := by decide
  obtain ⟨bits, grown, runs, growth, still, _, _, evaluates⟩ :=
    compressColumns_preserves_value threeInputs_reachable has
  obtain ⟨level, evaluated, same⟩ := evaluates threeBytes threeBytes_covers
  exact ⟨has, threeBytes_covers, bits, grown, level, runs, growth, still, evaluated, same⟩

end CarrySave
