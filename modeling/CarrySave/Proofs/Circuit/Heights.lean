/-
Module: CarrySave.Proofs.Circuit.Heights
Layer: Proofs
Purpose: Which weights a compression gives a bit.  Of the wires that reach a column, half go on
  to the next as carries, rounding down.  So a column gets a bit exactly when it and the
  columns below it, all wires being set, would be worth at least one wire of that column.
  Columns without gaps give one bit for each digit of what they are worth at most.
Main exports: Compressor.fill, Compressor.capacity, Compressor.Gapless, Compressor.Step.fills_iff,
  Compressor.Run.mem_weights_iff, Compressor.Run.weights_eq_range, compress_gapless
-/
import CarrySave.Proofs.Circuit.Preservation
import CarrySave.Proofs.Circuit.Synthesis
import Mathlib.Data.Nat.Size

namespace CarrySave

namespace Compressor

/-! ### Columns with all wires set -/

/-- What the columns up to a place are worth when all their wires are set, in wires of the
lowest column. -/
def fill : List (List Nat) → Nat → Nat
  | [], _ => 0
  | column :: _, 0 => column.length
  | column :: rest, place + 1 => column.length + 2 * fill rest place

/-- What all columns are worth when all their wires are set. -/
def capacity : List (List Nat) → Nat
  | [] => 0
  | column :: rest => column.length + 2 * capacity rest

theorem fill_deposit (wire : Nat) (columns : List (List Nat)) (place : Nat) :
    fill (deposit wire columns) place = fill columns place + 1 := by
  cases columns with
  | nil => cases place <;> simp [deposit, fill]
  | cons column rest =>
      cases place with
      | zero => simp [deposit, fill]
      | succ place =>
          simp only [deposit, fill, List.length_append, List.length_cons, List.length_nil]
          omega

theorem fill_le_capacity (columns : List (List Nat)) (place : Nat) :
    fill columns place ≤ capacity columns := by
  induction columns generalizing place with
  | nil => simp [fill, capacity]
  | cons column rest inductionHypothesis =>
      cases place with
      | zero => simp [fill, capacity]
      | succ place =>
          have above := inductionHypothesis place
          simp only [fill, capacity]
          omega

/-! ### The weights that get a bit -/

/-- The wires of a stage suffice for a bit of the given weight. -/
def Stage.Fills (stage : Stage) (weight : Nat) : Prop :=
  ∃ place, weight = stage.weight + place ∧ 2 ^ place ≤ fill stage.columns place

theorem Stage.Fills.weight_le {stage : Stage} {weight : Nat} (fills : stage.Fills weight) :
    stage.weight ≤ weight := by
  obtain ⟨place, rfl, _⟩ := fills
  exact Nat.le_add_right _ _

theorem fills_weight_iff (stage : Stage) :
    stage.Fills stage.weight ↔ 1 ≤ fill stage.columns 0 := by
  constructor
  · rintro ⟨place, same, enough⟩
    obtain rfl : place = 0 := by omega
    simpa using enough
  · intro enough
    exact ⟨0, rfl, by simpa using enough⟩

/-- When the lowest column is taken off and half of its wires go up as carries, what is left
suffices for a bit of the same weights above. -/
theorem fills_of_halved {before after : Stage} (next : after.weight = before.weight + 1)
    (halved : ∀ place, fill after.columns place = fill before.columns (place + 1) / 2)
    {weight : Nat} (above : weight ≠ before.weight) :
    before.Fills weight ↔ after.Fills weight := by
  have enough_iff : ∀ place, 2 ^ place ≤ fill after.columns place ↔
      2 ^ (place + 1) ≤ fill before.columns (place + 1) := by
    intro place
    rw [halved, Nat.le_div_iff_mul_le (by decide), ← pow_succ]
  constructor
  · rintro ⟨place, rfl, enough⟩
    cases place with
    | zero => simp at above
    | succ place => exact ⟨place, by omega, (enough_iff place).mpr enough⟩
  · rintro ⟨place, rfl, enough⟩
    exact ⟨place + 1, by omega, (enough_iff place).mp enough⟩

/-- Taking the lowest column off gives it a bit exactly when there was a wire in it. -/
theorem fills_iff_of_taken {before after : Stage} {bits : List (Nat × Nat)}
    (next : after.weight = before.weight + 1)
    (halved : ∀ place, fill after.columns place = fill before.columns (place + 1) / 2)
    (given : bits.map (·.1) = if 1 ≤ fill before.columns 0 then [before.weight] else [])
    (weight : Nat) : before.Fills weight ↔ weight ∈ bits.map (·.1) ∨ after.Fills weight := by
  rw [given]
  by_cases same : weight = before.weight
  · subst same
    have below : ¬after.Fills before.weight := by
      intro fills
      have := fills.weight_le
      omega
    rw [fills_weight_iff]
    split <;> simp_all
  · rw [fills_of_halved next halved same]
    split <;> simp [same]

/-- What a stage suffices for, a step gives or leaves enough for. -/
theorem Step.fills_iff {before after : Stage} {bits : List (Nat × Nat)}
    (step : Step before bits after) (weight : Nat) :
    before.Fills weight ↔ weight ∈ bits.map (·.1) ∨ after.Fills weight := by
  cases step with
  | skip => exact fills_iff_of_taken rfl (by simp [fill]) (by simp [fill]) weight
  | keep => exact fills_iff_of_taken rfl (by simp [fill]; omega) (by simp [fill]) weight
  | half => exact fills_iff_of_taken rfl (by simp [fill, fill_deposit]) (by simp [fill]) weight
  | full =>
      -- Two wires of the column are traded for one above it, and at least one wire stays.
      simp only [List.map_nil, List.not_mem_nil, false_or, Stage.Fills]
      refine exists_congr fun place => and_congr_right fun _ => ?_
      cases place with
      | zero => simp [fill]
      | succ place =>
          simp only [fill, fill_deposit, List.length_append, List.length_cons, List.length_nil]
          have same : ∀ more above : Nat,
              more + (0 + 1) + 2 * (above + 1) = more + 1 + 1 + 1 + 2 * above := by omega
          rw [same]

/-- A compression gives a bit of exactly the weights that its wires suffice for. -/
theorem Run.mem_weights_iff {before after : Stage} {bits : List (Nat × Nat)}
    (run : Run before bits after) (empty : after.columns = []) (weight : Nat) :
    weight ∈ bits.map (·.1) ↔ before.Fills weight := by
  induction run with
  | refl stage =>
      have never : ¬stage.Fills weight := by
        rintro ⟨place, _, enough⟩
        rw [empty] at enough
        exact absurd enough (by simp [fill])
      simp [never]
  | step head tail inductionHypothesis =>
      rw [List.map_append, List.mem_append, inductionHypothesis empty, head.fills_iff weight]

/-! ### Columns without gaps -/

/-- No weight below the highest is left without a bit. -/
def Gapless (columns : List (List Nat)) : Prop :=
  ∀ place, 2 ^ place ≤ capacity columns → 2 ^ place ≤ fill columns place

/-- Above the highest column nothing is added to what the columns are worth. -/
theorem fill_eq_capacity {columns : List (List Nat)} {place : Nat}
    (above : columns.length ≤ place) : fill columns place = capacity columns := by
  induction columns generalizing place with
  | nil => rfl
  | cons column rest inductionHypothesis =>
      cases place with
      | zero => simp at above
      | succ place =>
          have restAbove : rest.length ≤ place := by simpa using above
          simp only [fill, capacity, inductionHypothesis restAbove]

/-- A column that is not empty suffices for a bit of its own. -/
theorem two_pow_le_fill {columns : List (List Nat)} {place : Nat}
    (nonempty : ∀ column ∈ columns, column ≠ []) (below : place < columns.length) :
    2 ^ place ≤ fill columns place := by
  induction columns generalizing place with
  | nil => simp at below
  | cons column rest inductionHypothesis =>
      obtain ⟨some, others⟩ := List.forall_mem_cons.mp nonempty
      cases place with
      | zero => simpa [fill, Nat.one_le_iff_ne_zero] using some
      | succ place =>
          have further := inductionHypothesis others (Nat.lt_of_succ_lt_succ below)
          rw [fill, pow_succ]
          omega

/-- Columns none of which is empty have no gaps. -/
theorem gapless_of_ne_nil {columns : List (List Nat)} (nonempty : ∀ column ∈ columns, column ≠ []) :
    Gapless columns := by
  intro place enough
  rcases Nat.lt_or_ge place columns.length with below | above
  · exact two_pow_le_fill nonempty below
  · rw [fill_eq_capacity above]
    exact enough

/-- With all wires set, columns are worth their capacity. -/
theorem worth_one (columns : List (List Nat)) (lowest : Nat) :
    worth (fun _ => 1) lowest columns = capacity columns * 2 ^ lowest := by
  induction columns generalizing lowest with
  | nil => simp [capacity]
  | cons column rest inductionHypothesis =>
      rw [worth_cons, inductionHypothesis, List.map_const', List.sum_replicate, capacity, pow_succ]
      push_cast
      ring

/-- Columns without any wire have no gaps. -/
theorem gapless_of_capacity_eq_zero {columns : List (List Nat)} (none : capacity columns = 0) :
    Gapless columns := by
  intro place enough
  have positive := Nat.two_pow_pos place
  omega

/-- An increasing list of all numbers below a bound is the range below it. -/
theorem eq_range_of_increasing {numbers : List Nat} {bound : Nat}
    (increase : numbers.Pairwise (· < ·)) (members : ∀ n, n ∈ numbers ↔ n < bound) :
    numbers = List.range bound := by
  have perm : numbers.Perm (List.range bound) := by
    rw [List.perm_ext_iff_of_nodup (increase.imp Nat.ne_of_lt) List.nodup_range]
    intro n
    rw [members, List.mem_range]
  exact perm.eq_of_pairwise (fun a b _ _ less more => absurd less (Nat.lt_asymm more)) increase
    List.pairwise_lt_range

/-- A number has as many digits as the power of two next above it says. -/
theorem size_eq_succ {n digits : Nat} (lower : 2 ^ digits ≤ n) (upper : n < 2 ^ (digits + 1)) :
    n.size = digits + 1 :=
  Nat.le_antisymm (Nat.size_le.mpr upper) (Nat.lt_size.mpr lower)

/-- Columns without gaps give one bit for each digit of what they are worth at most. -/
theorem Run.weights_eq_range {before after : Stage} {bits : List (Nat × Nat)}
    (run : Run before bits after) (empty : after.columns = []) (start : before.weight = 0)
    (gapless : Gapless before.columns) :
    bits.map (·.1) = List.range (capacity before.columns).size := by
  apply eq_range_of_increasing run.weights_increase.1
  intro weight
  rw [run.mem_weights_iff empty, Nat.lt_size]
  constructor
  · rintro ⟨place, rfl, enough⟩
    rw [start, Nat.zero_add]
    exact Nat.le_trans enough (fill_le_capacity _ _)
  · intro enough
    exact ⟨weight, by rw [start, Nat.zero_add], gapless weight enough⟩

end Compressor

open Compressor

/-! ### Compressing columns without gaps -/

/-- Bits of consecutive weights make the number that they are worth. -/
theorem weigh_eq_numberOn {level : Nat → Bool} {bits : List (Nat × Nat)} {lowest : Nat}
    (consecutive : bits.map (·.1) = List.range' lowest bits.length) :
    weigh (bitValue ∘ level) bits = 2 ^ lowest * numberOn level (bits.map (·.2)) := by
  induction bits generalizing lowest with
  | nil => simp
  | cons bit rest inductionHypothesis =>
      obtain ⟨weight, wire⟩ := bit
      rw [List.map_cons, List.length_cons, List.range'_succ] at consecutive
      obtain ⟨rfl, further⟩ := List.cons.inj consecutive
      rw [weigh_cons, inductionHypothesis further, List.map_cons, numberOn_cons,
        Function.comp_apply, pow_succ]
      ring

/-- Reducing columns of existing wires without gaps computes what the columns are worth, on as
many wires as there are digits in what they are worth at most. -/
theorem compress_gapless {nl : Netlist} {columns : List (List Nat)}
    (has : ∀ column ∈ columns, nl.Has column) (gapless : Gapless columns) :
    (compress (references columns)).Computes nl (capacity columns).size
      fun level => worth (bitValue ∘ level) 0 columns := by
  obtain ⟨bits, last, runs, run, empty⟩ := compress_run has
  have weights := run.weights_eq_range empty rfl gapless
  have count : bits.length = (capacity columns).size := by
    simpa using congrArg List.length weights
  refine ⟨bits.map (·.2), last.netlist, runs, run.extends, run.has_bits, ?_, ?_⟩
  · rw [List.length_map, count]
  · intro level settled
    have kept := run.worth_eq settled
    have number : weigh (bitValue ∘ level) bits = 2 ^ 0 * numberOn level (bits.map (·.2)) :=
      weigh_eq_numberOn (by rw [weights, count, List.range_eq_range'])
    rw [empty, worth_nil, add_zero, number, pow_zero, one_mul] at kept
    exact kept

end CarrySave
