/-
Module: CarrySave.Proofs.Circuit.Work
Layer: Proofs
Purpose: How much work a compression is.  Each step makes less of the work that is left, although the
  columns may become more, so the steps come to an end.  Each cell takes a wire out of the columns and
  leaves at least one there, so there are fewer cells than wires.  The weight at which a compression
  ends, which is the number of columns that it takes off, is known from the start: neither cells nor
  carries change it.
Main exports: Step.work_lt, ends_of_steps, Trace.cells_lt, Netlist.size_withCells, Stage.top,
  Step.top_eq, compressColumns_linear
-/
import CarrySave.Proofs.Circuit.Cells

namespace CarrySave

namespace Compressor

/-! ### Steps come to an end -/

/-- Every step leaves less work than there was. -/
theorem Step.work_lt {before after : Stage} {bits : List (Nat × Nat)}
    (step : Step before bits after) : workOf after.columns < workOf before.columns := by
  cases step with
  | skip => simp [workOf]
  | keep =>
      simp [workOf]
      omega
  | @half nl _ _ _ rest =>
      have atMost := length_deposit_le (nl.size + 1) rest
      simp [workOf]
      omega
  | @full nl _ _ _ _ _ rest =>
      have atMost := length_deposit_le (nl.size + 4) rest
      simp [workOf]
      omega

/-- Of a sequence of stages not all are linked by steps, and the first link that is missing comes
before the work of the first stage is used up. -/
theorem ends_of_steps (stages : Nat → Stage) :
    ∃ time ≤ workOf (stages 0).columns, ∀ bits, ¬Step (stages time) bits (stages (time + 1)) := by
  by_contra endless
  push Not at endless
  have spent : ∀ time ≤ workOf (stages 0).columns + 1,
      workOf (stages time).columns + time ≤ workOf (stages 0).columns := by
    intro time
    induction time with
    | zero => simp
    | succ time inductionHypothesis =>
        intro early
        obtain ⟨bits, step⟩ := endless time (Nat.le_of_succ_le_succ early)
        have less := step.work_lt
        have sofar := inductionHypothesis (Nat.le_of_succ_le early)
        omega
  have spentMore := spent _ (Nat.le_refl _)
  omega

/-! ### Fewer cells than wires -/

/-- A step that builds a cell takes one wire out of the columns, and others stay there. -/
theorem Step.wireCount_cell {before after : Stage} {bits : List (Nat × Nat)}
    (step : Step before bits after) :
    (before.cells = [] ∧ wireCount after.columns ≤ wireCount before.columns) ∨
      (before.cells.length = 1 ∧ 0 < wireCount after.columns ∧
        wireCount before.columns = wireCount after.columns + 1) := by
  cases step with
  | skip => simp [Stage.cells]
  | keep => simp [Stage.cells]
  | half =>
      right
      simp [Stage.cells]
      omega
  | full =>
      right
      simp [Stage.cells]
      omega

/-- A compression of some wires builds fewer cells than there are wires. -/
theorem Trace.cells_lt {before after : Stage} {bits : List (Nat × Nat)} {cells : List Cell}
    (trace : Trace before bits cells after) (empty : after.columns = []) :
    cells.length ≤ wireCount before.columns - 1 := by
  induction trace with
  | refl stage => simp
  | step head tail inductionHypothesis =>
      have later := inductionHypothesis empty
      rw [List.length_append]
      rcases head.wireCount_cell with ⟨none, fewer⟩ | ⟨one, some, same⟩
      · rw [none, List.length_nil]
        omega
      · omega

/-- Every cell is a half adder or a full adder. -/
theorem countOf_add_countOf (cells : List Cell) :
    countOf cells .full + countOf cells .half = cells.length := by
  induction cells with
  | nil => rfl
  | cons cell rest inductionHypothesis =>
      rw [List.length_cons, ← inductionHypothesis]
      cases cell with
      | half weight x y =>
          simp [countOf, Cell.adder]
          omega
      | full weight x y z =>
          simp [countOf, Cell.adder]
          omega

end Compressor

open Compressor

/-- A half adder has two gates and a full adder five. -/
theorem Netlist.size_withCells (nl : Netlist) (cells : List Cell) :
    (nl.withCells cells).size =
      nl.size + 5 * Compressor.countOf cells .full + 2 * Compressor.countOf cells .half := by
  induction cells generalizing nl with
  | nil => rfl
  | cons cell rest inductionHypothesis =>
      have later := inductionHypothesis (nl.withCell cell)
      cases cell with
      | half weight x y =>
          simp [withCells, withCell, Compressor.countOf, Cell.adder] at later ⊢
          omega
      | full weight x y z =>
          simp [withCells, withCell, Compressor.countOf, Cell.adder] at later ⊢
          omega

namespace Compressor

/-! ### The columns that are taken off -/

theorem capacity_deposit (wire : Nat) (columns : List (List Nat)) :
    capacity (deposit wire columns) = capacity columns + 1 := by
  cases columns with
  | nil => rfl
  | cons column rest =>
      simp only [deposit, capacity, List.length_append, List.length_singleton]
      omega

theorem length_deposit (wire : Nat) (columns : List (List Nat)) :
    (deposit wire columns).length = max columns.length 1 := by
  cases columns <;> simp [deposit]

theorem size_two_mul {n : Nat} (positive : 0 < n) : (2 * n).size = n.size + 1 := by
  have bit : Nat.bit false n = 2 * n := rfl
  rw [← bit, Nat.size_bit (by omega)]

theorem size_two_mul_add_one (n : Nat) : (2 * n + 1).size = n.size + 1 := by
  have bit : Nat.bit true n = 2 * n + 1 := rfl
  rw [← bit, Nat.size_bit (by omega)]

/-- The weight at which a compression will end: above all columns that there are, and above the
highest digit of what they are worth at most. -/
def Stage.top (stage : Stage) : Nat :=
  stage.weight + max stage.columns.length (capacity stage.columns).size

/-- A step does not change where the compression will end. -/
theorem Step.top_eq {before after : Stage} {bits : List (Nat × Nat)}
    (step : Step before bits after) : after.top = before.top := by
  cases step with
  | @skip nl weight rest =>
      have halved : capacity ([] :: rest) = 2 * capacity rest := by simp [capacity]
      simp only [Stage.top, halved, List.length_cons]
      rcases Nat.eq_zero_or_pos (capacity rest) with none | some
      · simp [none]
        omega
      · rw [size_two_mul some]
        omega
  | @keep nl weight x rest =>
      have halved : capacity ([x] :: rest) = 2 * capacity rest + 1 := by
        simp [capacity]
        omega
      simp only [Stage.top, halved, size_two_mul_add_one, List.length_cons]
      omega
  | @half nl weight x y rest =>
      have halved : capacity ([x, y] :: rest) = 2 * (capacity rest + 1) := by
        simp [capacity]
        omega
      have some : 0 < capacity rest + 1 := Nat.succ_pos _
      have digit : 0 < (capacity rest + 1).size := Nat.size_pos.mpr some
      simp only [Stage.top, halved, size_two_mul some, capacity_deposit, length_deposit,
        List.length_cons]
      omega
  | @full nl weight x y z more rest =>
      -- Where the carry makes a column, the wires were worth a bit of its weight before.
      have same : capacity ((more ++ [nl.size + 2]) :: deposit (nl.size + 4) rest) =
          capacity ((x :: y :: z :: more) :: rest) := by
        simp [capacity, capacity_deposit]
        omega
      have digits : 1 < (capacity ((x :: y :: z :: more) :: rest)).size := by
        rw [Nat.lt_size]
        simp [capacity]
        omega
      simp only [Stage.top, same, List.length_cons, length_deposit]
      omega

theorem Run.top_eq {before after : Stage} {bits : List (Nat × Nat)}
    (run : Run before bits after) : after.top = before.top := by
  induction run with
  | refl => rfl
  | step head tail inductionHypothesis => rw [inductionHypothesis, head.top_eq]

/-- A compression takes off as many columns as there are at first, or one more than the weight of its
highest bit if that is more. -/
theorem Run.weight_eq_max {before after : Stage} {bits : List (Nat × Nat)}
    (run : Run before bits after) (empty : after.columns = []) (start : before.weight = 0) :
    after.weight =
      max before.columns.length (((bits.map (·.1)).getLast?.map (· + 1)).getD 0) := by
  have ended : after.top = after.weight := by simp [Stage.top, empty, capacity]
  have started : before.top = max before.columns.length (capacity before.columns).size := by
    rw [Stage.top, start, Nat.zero_add]
  have highest : ((bits.map (·.1)).getLast?.map (· + 1)).getD 0 = (capacity before.columns).size := by
    rw [run.getLast?_weights empty start]
    split
    · rename_i none
      rw [none]
      rfl
    · rename_i some
      exact Nat.succ_pred_eq_of_pos (Nat.size_pos.mpr (Nat.pos_of_ne_zero some))
  rw [highest, ← started, ← ended, run.top_eq]

end Compressor

/-- A compression comes to an end, and its work is linear in the number of its wires.  Whatever
stages its steps lead through, they stop after twice as many steps as there are wires, and one for
each column.  Draining it is granted and takes steps to the end.  Every wire that does not become a
bit is the price of a full adder; there are fewer cells than wires, none of more than five gates; and
the columns taken off are those that there were, or else all up to the highest bit. -/
theorem compressColumns_linear {nl : Netlist} {columns : List (List Nat)}
    (has : ∀ column ∈ columns, nl.Has column) :
    (∀ stages : Nat → Stage, stages 0 = ⟨nl, 0, columns, has⟩ →
      ∃ time ≤ 2 * wireCount columns + columns.length,
        ∀ bits, ¬Step (stages time) bits (stages (time + 1))) ∧
    ∃ (bits : List (Nat × Nat)) (cells : List Cell) (last : Stage),
      (drain { columns := references columns }).run nl =
        .ok (bits.map fun (weight, bit) => (weight, .wire bit), last.weight)
          (nl.withCells cells) ∧
      Trace ⟨nl, 0, columns, has⟩ bits cells last ∧ last.columns = [] ∧
      (1 ≤ wireCount columns →
        (countOf cells .full : Int) = wireCount columns - bits.length ∧
        countOf cells .full + countOf cells .half ≤ wireCount columns - 1 ∧
        (nl.withCells cells).size ≤ nl.size + 5 * (wireCount columns - 1)) ∧
      last.weight = max columns.length (((bits.map (·.1)).getLast?.map (· + 1)).getD 0) := by
  constructor
  · intro stages start
    have ends := ends_of_steps stages
    rw [start] at ends
    exact ends
  · obtain ⟨bits, last, drains, run, empty⟩ := drain_run ⟨nl, 0, columns, has⟩
    obtain ⟨cells, trace⟩ := run.exists_trace
    rw [trace.netlist_eq] at drains
    refine ⟨bits, cells, last, drains, trace, empty, ?_, ?_⟩
    · intro some
      have spent := trace.wireCount_eq empty
      have fewer := trace.cells_lt empty
      rw [← countOf_add_countOf] at fewer
      refine ⟨?_, fewer, ?_⟩
      · simp only at spent
        omega
      · rw [Netlist.size_withCells]
        simp only at fewer
        omega
    · exact run.weight_eq_max empty rfl

/-- Seven wires in three columns, one of them empty, take at most six cells, and so at most thirty
gates. -/
theorem compressColumns_linear_threeInputs :
    (∀ column ∈ [[0, 1, 2, 0, 1], [], [2, 2]], threeInputs.Has column) ∧
    ∃ (bits : List (Nat × Nat)) (cells : List Cell) (last : Stage),
      (drain { columns := references [[0, 1, 2, 0, 1], [], [2, 2]] }).run threeInputs =
        .ok (bits.map fun (weight, bit) => (weight, .wire bit), last.weight)
          (threeInputs.withCells cells) ∧
      (countOf cells .full : Int) = 7 - bits.length ∧
      countOf cells .full + countOf cells .half ≤ 6 ∧
      (threeInputs.withCells cells).size ≤ threeInputs.size + 30 := by
  have has : ∀ column ∈ [[0, 1, 2, 0, 1], [], [2, 2]], threeInputs.Has column := by decide
  obtain ⟨-, bits, cells, last, drains, -, -, work, -⟩ := compressColumns_linear has
  obtain ⟨fulls, fewer, size⟩ := work (by decide)
  exact ⟨has, bits, cells, last, drains, fulls, fewer, size⟩

end CarrySave
