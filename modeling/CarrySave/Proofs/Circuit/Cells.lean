/-
Module: CarrySave.Proofs.Circuit.Cells
Layer: Proofs
Purpose: Which cells a compression builds.  A trace is a run of which the cells are kept besides
  the bits.  The wires that a column has when it becomes the lowest one, carries included, decide
  which cells are built at its weight: full adders while there are three wires or more, and a half
  adder when two are left in the end.  Their number follows from the heights of the columns alone,
  and a full adder takes one wire away for good while a half adder takes none.
Main exports: Compressor.Cell, Netlist.withCells, Compressor.Trace, Compressor.arrivals,
  Compressor.Trace.countAt_eq, Compressor.Trace.wireCount_eq, compressColumns_shape
-/
import CarrySave.Proofs.Circuit.Heights
import CarrySave.Proofs.Netlist.Kinds
import Mathlib.Algebra.BigOperators.Ring.Finset

namespace CarrySave

namespace Compressor

/-! ### Cells -/

/-- The two sorts of cells. -/
inductive Adder where
  | half
  | full
deriving DecidableEq, Repr

/-- The kinds of the gates that a cell of one sort consists of, in order. -/
def Adder.kinds : Adder → List String
  | .half => ["xor", "and"]
  | .full => ["xor", "and", "xor", "and", "or"]

/-- A cell that a compression builds: the weight of its operands, and the operands. -/
inductive Cell where
  | half (weight x y : Nat)
  | full (weight x y z : Nat)
deriving DecidableEq, Repr

namespace Cell

def adder : Cell → Adder
  | .half _ _ _ => .half
  | .full _ _ _ _ => .full

def weight : Cell → Nat
  | .half weight _ _ => weight
  | .full weight _ _ _ => weight

end Cell

/-- How many of some cells are of one sort and stand at one weight. -/
def countAt (cells : List Cell) (adder : Adder) (weight : Nat) : Nat :=
  cells.countP fun cell => cell.adder = adder ∧ cell.weight = weight

/-- How many of some cells are of one sort, whatever their weights. -/
def countOf (cells : List Cell) (adder : Adder) : Nat :=
  cells.countP fun cell => cell.adder = adder

theorem countAt_append (cells more : List Cell) (adder : Adder) (weight : Nat) :
    countAt (cells ++ more) adder weight = countAt cells adder weight + countAt more adder weight :=
  List.countP_append

theorem eq_nil_of_countOf {cells : List Cell} (halves : countOf cells .half = 0)
    (fulls : countOf cells .full = 0) : cells = [] := by
  rw [List.eq_nil_iff_forall_not_mem]
  intro cell member
  cases sort : cell.adder with
  | half => exact (List.countP_eq_zero.mp halves cell member) (by simpa using sort)
  | full => exact (List.countP_eq_zero.mp fulls cell member) (by simpa using sort)

theorem countOf_append (cells more : List Cell) (adder : Adder) :
    countOf (cells ++ more) adder = countOf cells adder + countOf more adder :=
  List.countP_append

end Compressor

namespace Netlist

open Compressor

/-- The netlist in which one cell has been built. -/
def withCell (nl : Netlist) : Cell → Netlist
  | .half _ x y => nl.withHalfAdder x y
  | .full _ x y z => nl.withFullAdder x y z

/-- The netlist in which some cells have been built, one after the other. -/
def withCells (nl : Netlist) (cells : List Cell) : Netlist :=
  cells.foldl withCell nl

@[simp] theorem withCells_nil (nl : Netlist) : nl.withCells [] = nl := rfl

theorem withCells_append (nl : Netlist) (cells more : List Cell) :
    nl.withCells (cells ++ more) = (nl.withCells cells).withCells more :=
  List.foldl_append

theorem kinds_withCells (nl : Netlist) (cells : List Cell) :
    (nl.withCells cells).kinds = nl.kinds ++ cells.flatMap (·.adder.kinds) := by
  induction cells generalizing nl with
  | nil => simp
  | cons cell rest inductionHypothesis =>
      have first : (nl.withCell cell).kinds = nl.kinds ++ cell.adder.kinds := by
        cases cell <;>
          simp [withCell, withFullAdder, withHalfAdder, Cell.adder, Adder.kinds, Gate.kind, Op.name]
      have later := inductionHypothesis (nl.withCell cell)
      rw [first, List.append_assoc] at later
      exact later

end Netlist

namespace Compressor

/-! ### Traces -/

/-- The cell that the next step from a stage builds, if any. -/
def Stage.cells (stage : Stage) : List Cell :=
  match stage.columns with
  | [x, y] :: _ => [.half stage.weight x y]
  | (x :: y :: z :: _) :: _ => [.full stage.weight x y z]
  | _ => []

/-- Steps in a row, with the bits that they give and the cells that they build, in order. -/
inductive Trace : Stage → List (Nat × Nat) → List Cell → Stage → Prop where
  | refl (stage : Stage) : Trace stage [] [] stage
  | step {before middle after : Stage} {first later : List (Nat × Nat)} {cells : List Cell}
      (head : Step before first middle) (tail : Trace middle later cells after) :
      Trace before (first ++ later) (before.cells ++ cells) after

/-- Every run has a trace. -/
theorem Run.exists_trace {before after : Stage} {bits : List (Nat × Nat)}
    (run : Run before bits after) : ∃ cells, Trace before bits cells after := by
  induction run with
  | refl stage => exact ⟨[], .refl stage⟩
  | step head _ inductionHypothesis =>
      obtain ⟨cells, tail⟩ := inductionHypothesis
      exact ⟨_, .step head tail⟩

theorem Trace.run {before after : Stage} {bits : List (Nat × Nat)} {cells : List Cell}
    (trace : Trace before bits cells after) : Run before bits after := by
  induction trace with
  | refl stage => exact .refl stage
  | step head _ inductionHypothesis => exact .step head inductionHypothesis

theorem Step.netlist_eq {before after : Stage} {bits : List (Nat × Nat)}
    (step : Step before bits after) : after.netlist = before.netlist.withCells before.cells := by
  cases step <;> rfl

/-- A compression adds the gates of its cells and nothing else. -/
theorem Trace.netlist_eq {before after : Stage} {bits : List (Nat × Nat)} {cells : List Cell}
    (trace : Trace before bits cells after) :
    after.netlist = before.netlist.withCells cells := by
  induction trace with
  | refl => rfl
  | step head tail inductionHypothesis =>
      rw [inductionHypothesis, head.netlist_eq, Netlist.withCells_append]

/-! ### Wires that arrive at a column -/

section Columns

variable {α : Type}

/-- How many wires stand in the column of a weight, none beyond the last column. -/
def height (columns : List (List α)) (weight : Nat) : Nat :=
  (columns.getD weight []).length

/-- What the columns up to a weight are worth when all their wires are set. -/
def load (columns : List (List α)) (weight : Nat) : Nat :=
  ∑ place ∈ Finset.range (weight + 1), height columns place * 2 ^ place

/-- How many wires the column of a weight has when it becomes the lowest one: its own, and one
for each carry from below. -/
def arrivals (columns : List (List α)) (weight : Nat) : Nat :=
  load columns weight / 2 ^ weight

theorem load_nil (weight : Nat) : load ([] : List (List α)) weight = 0 := by
  simp [load, height]

theorem load_zero (column : List α) (rest : List (List α)) :
    load (column :: rest) 0 = column.length := by
  simp [load, height]

theorem load_succ (column : List α) (rest : List (List α)) (weight : Nat) :
    load (column :: rest) (weight + 1) = column.length + 2 * load rest weight := by
  have above : ∀ place, height (column :: rest) (place + 1) * 2 ^ (place + 1) =
      2 * (height rest place * 2 ^ place) := by
    intro place
    rw [pow_succ, height, List.getD_cons_succ, height]
    ring
  have lowest : height (column :: rest) 0 * 2 ^ 0 = column.length := by simp [height]
  rw [load, Finset.sum_range_succ', lowest, load, Finset.mul_sum, add_comm]
  simp only [above]

theorem arrivals_zero (columns : List (List α)) : arrivals columns 0 = height columns 0 := by
  simp [arrivals, load]

/-- At the next weight its own wires arrive, and one carry for every two wires that arrive here. -/
theorem arrivals_succ (columns : List (List α)) (weight : Nat) :
    arrivals columns (weight + 1) = height columns (weight + 1) + arrivals columns weight / 2 := by
  rw [arrivals, load, Finset.sum_range_succ, Nat.add_mul_div_right _ _ (Nat.two_pow_pos _),
    add_comm, pow_succ, ← Nat.div_div_eq_div_mul]
  rfl

theorem load_deposit (wire : α) (columns : List (List α)) (weight : Nat) :
    load (deposit wire columns) weight = load columns weight + 1 := by
  cases columns with
  | nil =>
      rw [deposit, load_nil]
      cases weight with
      | zero => rw [load_zero, List.length_singleton]
      | succ weight => rw [load_succ, load_nil, List.length_singleton]
  | cons column rest =>
      rw [deposit]
      cases weight with
      | zero => rw [load_zero, load_zero, List.length_append, List.length_singleton]
      | succ weight =>
          rw [load_succ, load_succ, List.length_append, List.length_singleton]
          omega

end Columns

theorem fill_eq_load (columns : List (List Nat)) (weight : Nat) :
    fill columns weight = load columns weight := by
  induction columns generalizing weight with
  | nil => rw [fill, load_nil]
  | cons column rest inductionHypothesis =>
      cases weight with
      | zero => rw [fill, load_zero]
      | succ weight => rw [fill, inductionHypothesis, load_succ]

theorem capacity_eq_sum (columns : List (List Nat)) :
    capacity columns =
      ∑ place ∈ Finset.range columns.length, height columns place * 2 ^ place := by
  cases columns with
  | nil => rfl
  | cons column rest =>
      have all : fill (column :: rest) (rest.length + 1) = capacity (column :: rest) :=
        fill_eq_capacity (Nat.le_refl _)
      have none : height (column :: rest) (rest.length + 1) = 0 := by simp [height]
      rw [← all, fill_eq_load, load, Finset.sum_range_succ, none, zero_mul, add_zero,
        List.length_cons]

/-- How many wires the column of a weight will have when a compression gets to it. -/
def Stage.arrivals (stage : Stage) (weight : Nat) : Nat :=
  if weight < stage.weight then 0 else Compressor.arrivals stage.columns (weight - stage.weight)

theorem Stage.arrivals_add (stage : Stage) (place : Nat) :
    stage.arrivals (stage.weight + place) = load stage.columns place / 2 ^ place := by
  rw [arrivals, if_neg (by omega), Nat.add_sub_cancel_left, Compressor.arrivals]

/-- At the start the wires that arrive are those that arrive at the columns. -/
theorem Stage.arrivals_start {nl : Netlist} {columns : List (List Nat)}
    (has : ∀ column ∈ columns, nl.Has column) (weight : Nat) :
    Stage.arrivals ⟨nl, 0, columns, has⟩ weight = Compressor.arrivals columns weight :=
  if_neg (Nat.not_lt_zero weight)

theorem Stage.arrivals_weight (stage : Stage) :
    stage.arrivals stage.weight = load stage.columns 0 := by
  have lowest := stage.arrivals_add 0
  rwa [Nat.add_zero, pow_zero, Nat.div_one] at lowest

theorem Stage.arrivals_of_lt {stage : Stage} {weight : Nat} (below : weight < stage.weight) :
    stage.arrivals weight = 0 :=
  if_pos below

/-- When the lowest column is taken off, half of its wires go up, so at every weight above the
same wires arrive. -/
theorem arrivals_of_halved {before after : Stage} (next : after.weight = before.weight + 1)
    (halved : ∀ place, load after.columns place = load before.columns (place + 1) / 2)
    {weight : Nat} (other : weight ≠ before.weight) :
    after.arrivals weight = before.arrivals weight := by
  rcases Nat.lt_or_gt_of_ne other with below | above
  · rw [Stage.arrivals_of_lt (by omega), Stage.arrivals_of_lt below]
  · obtain ⟨place, rfl⟩ : ∃ place, weight = before.weight + (place + 1) :=
      ⟨weight - before.weight - 1, by omega⟩
    have same : before.weight + (place + 1) = after.weight + place := by omega
    rw [before.arrivals_add, same, after.arrivals_add, halved, Nat.div_div_eq_div_mul, pow_succ']

/-- When two wires of the lowest column are traded for one above it, at every other weight the same
wires arrive. -/
theorem arrivals_of_traded {before after : Stage} (same : after.weight = before.weight)
    (traded : ∀ place, load after.columns (place + 1) = load before.columns (place + 1))
    {weight : Nat} (other : weight ≠ before.weight) :
    after.arrivals weight = before.arrivals weight := by
  rcases Nat.lt_or_gt_of_ne other with below | above
  · rw [Stage.arrivals_of_lt (by omega), Stage.arrivals_of_lt below]
  · obtain ⟨place, rfl⟩ : ∃ place, weight = before.weight + (place + 1) :=
      ⟨weight - before.weight - 1, by omega⟩
    rw [before.arrivals_add, ← same, after.arrivals_add, traded]

/-- A step changes the number of wires that arrive at the weight it works on, and at no other. -/
theorem Step.arrivals_eq {before after : Stage} {bits : List (Nat × Nat)}
    (step : Step before bits after) {weight : Nat} (other : weight ≠ before.weight) :
    after.arrivals weight = before.arrivals weight := by
  cases step with
  | skip =>
      refine arrivals_of_halved rfl ?_ other
      intro place
      simp only [load_succ, List.length_nil]
      omega
  | keep =>
      refine arrivals_of_halved rfl ?_ other
      intro place
      simp only [load_succ, List.length_singleton]
      omega
  | half =>
      refine arrivals_of_halved rfl ?_ other
      intro place
      simp only [load_deposit, load_succ, List.length_cons, List.length_nil]
      omega
  | full =>
      refine arrivals_of_traded ?_ ?_ other
      · rfl
      · intro place
        simp only [load_deposit, load_succ, List.length_append, List.length_cons, List.length_nil]
        omega

/-! ### How many cells -/

/-- How many cells of a sort it takes to reduce some wires of one weight to a single one. -/
def Adder.needed : Adder → Nat → Nat
  | .full, wires => (wires - 1) / 2
  | .half, wires => if 0 < wires ∧ wires % 2 = 0 then 1 else 0

theorem Adder.needed_zero (adder : Adder) : adder.needed 0 = 0 := by
  cases adder <;> rfl

theorem countAt_cells_of_ne (stage : Stage) (adder : Adder) {weight : Nat}
    (other : weight ≠ stage.weight) : countAt stage.cells adder weight = 0 := by
  unfold Stage.cells
  split <;> simp [countAt, Cell.weight, Ne.symm other]

/-- At the lowest weight, a step that takes the column off builds the cells that are needed, and
any other step builds one of them. -/
theorem Step.needed_weight_eq {before after : Stage} {bits : List (Nat × Nat)}
    (step : Step before bits after) (adder : Adder) :
    adder.needed (before.arrivals before.weight) =
      countAt before.cells adder before.weight +
        adder.needed (after.arrivals before.weight) := by
  rw [Stage.arrivals_weight]
  cases step with
  | skip =>
      rw [Stage.arrivals_of_lt (Nat.lt_succ_self _), load_zero]
      cases adder <;> rfl
  | keep =>
      rw [Stage.arrivals_of_lt (Nat.lt_succ_self _), load_zero]
      cases adder <;> simp [Adder.needed, countAt, Stage.cells]
  | half =>
      rw [Stage.arrivals_of_lt (Nat.lt_succ_self _), load_zero]
      cases adder <;> simp [Adder.needed, countAt, Stage.cells, Cell.adder, Cell.weight]
  | @full nl weight x y z more rest has later =>
      have left : Stage.arrivals ⟨nl.withFullAdder x y z, weight,
          (more ++ [nl.size + 2]) :: deposit (nl.size + 4) rest, later⟩ weight = more.length + 1 := by
        rw [← List.length_singleton, ← List.length_append, ← load_zero]
        exact Stage.arrivals_weight _
      have three : (x :: y :: z :: more).length = more.length + 1 + 2 := rfl
      rw [left, load_zero, three]
      cases adder
      · simp [Adder.needed, countAt, Stage.cells, Cell.adder]
      · simp [Adder.needed, countAt, Stage.cells, Cell.adder, Cell.weight]
        omega

/-- The cells that are needed at a weight are the one that a step builds and those that are
needed after it. -/
theorem Step.needed_eq {before after : Stage} {bits : List (Nat × Nat)}
    (step : Step before bits after) (adder : Adder) (weight : Nat) :
    adder.needed (before.arrivals weight) =
      countAt before.cells adder weight + adder.needed (after.arrivals weight) := by
  by_cases same : weight = before.weight
  · rw [same]
    exact step.needed_weight_eq adder
  · rw [step.arrivals_eq same, countAt_cells_of_ne before adder same, zero_add]

/-- A compression builds at each weight the cells that are needed for the wires that arrive. -/
theorem Trace.countAt_eq {before after : Stage} {bits : List (Nat × Nat)} {cells : List Cell}
    (trace : Trace before bits cells after) (empty : after.columns = []) (adder : Adder)
    (weight : Nat) : countAt cells adder weight = adder.needed (before.arrivals weight) := by
  induction trace with
  | refl stage =>
      have none : stage.arrivals weight = 0 := by
        rw [Stage.arrivals, empty, Compressor.arrivals, load_nil, Nat.zero_div, ite_self]
      rw [none, Adder.needed_zero]
      rfl
  | step head tail inductionHypothesis =>
      rw [countAt_append, inductionHypothesis empty, head.needed_eq]

/-- A full adder takes one wire out of the columns for good, and so does each bit. -/
theorem Step.wireCount_eq {before after : Stage} {bits : List (Nat × Nat)}
    (step : Step before bits after) :
    wireCount before.columns =
      bits.length + countOf before.cells .full + wireCount after.columns := by
  cases step with
  | skip => simp [Stage.cells, countOf]
  | keep => simp [Stage.cells, countOf]
  | half =>
      simp [Stage.cells, countOf, Cell.adder]
      omega
  | full =>
      simp [Stage.cells, countOf, Cell.adder]
      omega

theorem wireCount_eq_sum {α : Type} (columns : List (List α)) :
    wireCount columns = (columns.map List.length).sum := by
  induction columns with
  | nil => rfl
  | cons column rest inductionHypothesis =>
      rw [wireCount_cons, inductionHypothesis, List.map_cons, List.sum_cons]

/-- A compression builds as many full adders as it has wires more than bits. -/
theorem Trace.wireCount_eq {before after : Stage} {bits : List (Nat × Nat)} {cells : List Cell}
    (trace : Trace before bits cells after) (empty : after.columns = []) :
    wireCount before.columns = bits.length + countOf cells .full := by
  induction trace with
  | refl stage =>
      rw [empty]
      rfl
  | step head tail inductionHypothesis =>
      rw [head.wireCount_eq, inductionHypothesis empty, List.length_append, countOf_append]
      omega

/-- A compression builds no cells from a weight on at which no wires arrive any more. -/
theorem Trace.weight_lt {before after : Stage} {bits : List (Nat × Nat)} {cells : List Cell}
    (trace : Trace before bits cells after) (empty : after.columns = []) {bound : Nat}
    (none : ∀ weight, bound ≤ weight → before.arrivals weight = 0) :
    ∀ cell ∈ cells, cell.weight < bound := by
  intro cell member
  by_contra beyond
  have some : 0 < countAt cells cell.adder cell.weight :=
    List.countP_pos_iff.mpr ⟨cell, member, by simp⟩
  rw [trace.countAt_eq empty, none _ (Nat.le_of_not_lt beyond), Adder.needed_zero] at some
  cases some

/-- Cells of one sort are counted weight by weight. -/
theorem countOf_eq_sum {cells : List Cell} {bound : Nat} (adder : Adder)
    (bounded : ∀ cell ∈ cells, cell.weight < bound) :
    countOf cells adder = ∑ weight ∈ Finset.range bound, countAt cells adder weight := by
  induction cells with
  | nil => simp [countOf, countAt]
  | cons cell rest inductionHypothesis =>
      obtain ⟨below, boundedRest⟩ := List.forall_mem_cons.mp bounded
      have one : countOf [cell] adder =
          ∑ weight ∈ Finset.range bound, countAt [cell] adder weight := by
        by_cases same : cell.adder = adder <;> simp [countOf, countAt, same, below]
      have split := countOf_append [cell] rest adder
      simp only [List.singleton_append] at split
      rw [split, one, inductionHypothesis boundedRest, ← Finset.sum_add_distrib]
      exact Finset.sum_congr rfl fun weight _ => (countAt_append [cell] rest adder weight).symm

/-! ### Which weights -/

/-- The wires of a stage suffice for a bit of a weight exactly when one arrives there. -/
theorem Stage.fills_iff (stage : Stage) (weight : Nat) :
    stage.Fills weight ↔ 1 ≤ stage.arrivals weight := by
  constructor
  · rintro ⟨place, rfl, enough⟩
    rw [stage.arrivals_add, ← fill_eq_load]
    exact Nat.div_pos enough (Nat.two_pow_pos place)
  · intro some
    rcases Nat.lt_or_ge weight stage.weight with below | above
    · rw [Stage.arrivals_of_lt below] at some
      cases some
    · obtain ⟨place, rfl⟩ := Nat.exists_eq_add_of_le above
      rw [stage.arrivals_add, ← fill_eq_load, Nat.le_div_iff_mul_le (Nat.two_pow_pos place),
        one_mul] at some
      exact ⟨place, rfl, some⟩

/-- Columns that are worth less than twice a weight have no wires above it. -/
theorem fill_eq_capacity_of_lt {columns : List (List Nat)} {place : Nat}
    (less : capacity columns < 2 ^ (place + 1)) : fill columns place = capacity columns := by
  induction columns generalizing place with
  | nil => rfl
  | cons column rest inductionHypothesis =>
      rw [capacity, pow_succ] at less
      cases place with
      | zero =>
          rw [fill, capacity]
          omega
      | succ place =>
          rw [fill, capacity, inductionHypothesis (by omega)]

theorem getLast?_of_increasing {numbers : List Nat} {top : Nat}
    (increase : numbers.Pairwise (· < ·)) (member : top ∈ numbers)
    (most : ∀ n ∈ numbers, n ≤ top) : numbers.getLast? = some top := by
  induction numbers using List.reverseRecOn with
  | nil => cases member
  | append_singleton numbers last _ =>
      rw [List.getLast?_concat]
      rcases List.mem_append.mp member with early | late
      · have less := (List.pairwise_append.mp increase).2.2 top early last (by simp)
        exact absurd (most last (by simp)) (Nat.not_le_of_lt less)
      · rw [List.mem_singleton.mp late]

/-- The highest bit of a compression has the weight of the highest digit of what its columns are
worth at most. -/
theorem Run.getLast?_weights {before after : Stage} {bits : List (Nat × Nat)}
    (run : Run before bits after) (empty : after.columns = []) (start : before.weight = 0) :
    (bits.map (·.1)).getLast? =
      if capacity before.columns = 0 then none else some ((capacity before.columns).size - 1) := by
  have fills_iff : ∀ weight, weight ∈ bits.map (·.1) ↔ 2 ^ weight ≤ fill before.columns weight := by
    intro weight
    rw [run.mem_weights_iff empty, Stage.Fills, start]
    simp
  have digits : ∀ weight ∈ bits.map (·.1), weight < (capacity before.columns).size := by
    intro weight member
    exact Nat.lt_size.mpr
      (Nat.le_trans ((fills_iff weight).mp member) (fill_le_capacity _ _))
  split
  · rename_i none
    rw [none, Nat.size_zero] at digits
    rw [List.getLast?_eq_none_iff, List.eq_nil_iff_forall_not_mem]
    exact fun weight member => absurd (digits weight member) (Nat.not_lt_zero weight)
  · rename_i some
    have positive : 0 < (capacity before.columns).size :=
      Nat.size_pos.mpr (Nat.pos_of_ne_zero some)
    have last : (capacity before.columns).size - 1 + 1 = (capacity before.columns).size := by omega
    apply getLast?_of_increasing run.weights_increase.1
    · rw [fills_iff, fill_eq_capacity_of_lt (by rw [last]; exact Nat.lt_size_self _)]
      exact Nat.lt_size.mp (by omega)
    · intro weight member
      have := digits weight member
      omega

end Compressor

open Compressor

/-- The shape of a compression follows from the heights of its columns.  On existing wires it
never fails.  A weight gets a bit exactly when a wire arrives at it; the cells built there are as
many full adders as take the wires that arrive, by twos, down to one or two, and a half adder if
there are two.  The highest bit has the weight of the highest digit of what the columns are worth at
most, and without empty columns every weight up to it has a bit. -/
theorem compressColumns_shape {nl : Netlist} {columns : List (List Nat)}
    (has : ∀ column ∈ columns, nl.Has column) :
    let total := ∑ weight ∈ Finset.range columns.length, height columns weight * 2 ^ weight
    ∃ (bits : List (Nat × Nat)) (cells : List Cell) (last : Stage),
      (compressColumns (references columns)).run nl =
        .ok (bits.map fun (weight, bit) => (weight, .wire bit)) (nl.withCells cells) ∧
      Trace ⟨nl, 0, columns, has⟩ bits cells last ∧ last.columns = [] ∧
      (∀ weight, weight ∈ bits.map (·.1) ↔ 1 ≤ arrivals columns weight) ∧
      (∀ weight, countAt cells .full weight = (arrivals columns weight - 1) / 2) ∧
      (∀ weight, countAt cells .half weight =
        if 0 < arrivals columns weight ∧ arrivals columns weight % 2 = 0 then 1 else 0) ∧
      (bits.map (·.1)).getLast? = (if total = 0 then none else some (total.size - 1)) ∧
      ((∀ column ∈ columns, column ≠ []) →
        bits.map (·.1) = List.range total.size ∧
        (compress (references columns)).run nl =
          .ok (bits.map fun (_, bit) => .wire bit) (nl.withCells cells)) := by
  intro total
  have worth : capacity columns = total := capacity_eq_sum columns
  obtain ⟨bits, last, runs, run, empty⟩ := compressColumns_run has
  obtain ⟨cells, trace⟩ := run.exists_trace
  rw [trace.netlist_eq] at runs
  refine ⟨bits, cells, last, runs, trace, empty, ?_, ?_, ?_, ?_, ?_⟩
  · intro weight
    rw [run.mem_weights_iff empty, Stage.fills_iff, Stage.arrivals_start]
  · intro weight
    rw [trace.countAt_eq empty, Stage.arrivals_start, Adder.needed]
  · intro weight
    rw [trace.countAt_eq empty, Stage.arrivals_start, Adder.needed]
  · rw [run.getLast?_weights empty rfl, worth]
  · intro nonempty
    refine ⟨?_, ?_⟩
    · rw [run.weights_eq_range empty rfl (gapless_of_ne_nil nonempty), worth]
    · simp only [compress, EStateM.run_bind, runs, EStateM.run_pure, List.map_map,
        Function.comp_def]

/-- Five wires at the lowest weight, none at the next and two at the one above, some of them the
same, so that carries fill the gap; and columns without a gap. -/
theorem compressColumns_shape_threeInputs :
    (∀ column ∈ [[0, 1, 2, 0, 1], [], [2, 2]], threeInputs.Has column) ∧
    (∃ (bits : List (Nat × Nat)) (cells : List Cell),
      (compressColumns (references [[0, 1, 2, 0, 1], [], [2, 2]])).run threeInputs =
        .ok (bits.map fun (weight, bit) => (weight, .wire bit)) (threeInputs.withCells cells) ∧
      1 ∈ bits.map (·.1) ∧ countAt cells .full 0 = 2 ∧ countAt cells .half 1 = 1 ∧
      countAt cells .full 2 = 1 ∧ (bits.map (·.1)).getLast? = some 3) ∧
    ∃ (bits : List (Nat × Nat)) (cells : List Cell),
      (compress (references [[0, 1], [2, 2, 1]])).run threeInputs =
        .ok (bits.map fun (_, bit) => .wire bit) (threeInputs.withCells cells) ∧
      bits.map (·.1) = [0, 1, 2, 3] := by
  have has : ∀ column ∈ [[0, 1, 2, 0, 1], [], [2, 2]], threeInputs.Has column := by decide
  have gapless : ∀ column ∈ [[0, 1], [2, 2, 1]], threeInputs.Has column := by decide
  obtain ⟨bits, cells, -, runs, -, -, weights, fulls, halves, highest, -⟩ :=
    compressColumns_shape has
  obtain ⟨others, more, -, -, -, -, -, -, -, -, compressed⟩ := compressColumns_shape gapless
  obtain ⟨consecutive, outputs⟩ := compressed (by decide)
  refine ⟨has, ⟨bits, cells, runs, ?_, ?_, ?_, ?_, ?_⟩, others, more, outputs, ?_⟩
  · exact (weights 1).mpr (by decide)
  · rw [fulls]
    decide
  · rw [halves]
    decide
  · rw [fulls]
    decide
  · rw [highest]
    decide
  · rw [consecutive]
    decide

end CarrySave
