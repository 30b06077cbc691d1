/-
Module: CarrySave.Proofs.Circuit.MultiplierCost
Layer: Proofs
Purpose: What multipliers are made of and what they cost, at every width.  Each pair of bits takes
  two buffers and a conjunction.  The wires that arrive at a weight go up by twos along the ramp of
  the diagonals, stay the same along the plateau and go down along the descent.  They are even along
  the ramp and at the first weight of the descent, so there is one half adder for each bit of the
  narrower operand, and the number of full adders follows from that of the wires.
Main exports: productKinds, addsKinds_partialProducts, productArrivals, arrivals_of_diagonals,
  multiplier_cells, multiplier_cost
-/
import CarrySave.Proofs.Circuit.Multiplication
import CarrySave.Proofs.Circuit.Pricing
import Mathlib.Order.Interval.Finset.Nat

namespace CarrySave

open Builder Compressor

/-! ### Partial products -/

/-- The kinds of the gates that multiply two bits, in order. -/
def productKinds : List String :=
  ["buffer", "buffer", "and"]

theorem addsKinds_partialProduct (operands : Operands) (i j : Nat) :
    AddsKinds (partialProduct operands i j) productKinds := by
  unfold partialProduct
  split
  · exact addsKinds_bind (addsKinds_buffer _) fun _ =>
      addsKinds_bind (addsKinds_buffer _) fun _ => addsKinds_bind_pure (addsKinds_logic .and _ _)
  · exact addsKinds_throw _ _

theorem addsKinds_diagonalProducts (operands : Operands) (pairs : List (Nat × Nat)) :
    AddsKinds (diagonalProducts operands pairs)
      (List.replicate pairs.length productKinds).flatten := by
  induction pairs generalizing operands with
  | nil => exact addsKinds_pure _
  | cons pair rest inductionHypothesis =>
      rw [List.length_cons, List.replicate_succ, List.flatten_cons]
      exact addsKinds_bind (addsKinds_partialProduct operands pair.1 pair.2) fun product =>
        addsKinds_bind_pure (inductionHypothesis product.2)

theorem addsKinds_partialProducts (operands : Operands) (array : List (List (Nat × Nat))) :
    AddsKinds (partialProducts operands array)
      (List.replicate array.flatten.length productKinds).flatten := by
  induction array generalizing operands with
  | nil => exact addsKinds_pure _
  | cons pairs rest inductionHypothesis =>
      rw [List.flatten_cons, List.length_append, List.replicate_add, List.flatten_append]
      exact addsKinds_bind (addsKinds_diagonalProducts operands pairs) fun products =>
        addsKinds_bind_pure (inductionHypothesis products.2)

/-! ### Wires that arrive at the diagonals -/

/-- How many wires arrive at a weight of the array of partial products, by the widths of the
narrower and the wider operand: two more at each weight of the ramp, one less than twice the narrower
width along the plateau, and two less at each weight of the descent. -/
def productArrivals (narrow wide weight : Nat) : Nat :=
  if narrow = 0 then 0
  else if weight = 0 then 1
  else if weight < narrow then 2 * weight
  else if weight < wide then 2 * narrow - 1
  else if weight = wide then 2 * narrow - 2
  else 2 * (narrow + wide - weight) - 1

/-- From one weight to the next, half of the wires go up as carries and the next diagonal is added. -/
theorem productArrivals_succ {narrow wide : Nat} (order : narrow ≤ wide) (weight : Nat) :
    productArrivals narrow wide (weight + 1) =
      min narrow (weight + 2) - (weight + 2 - wide) + productArrivals narrow wide weight / 2 := by
  simp only [productArrivals, Nat.succ_ne_zero, if_false]
  -- Within the ramp, the plateau and the descent, and where one of them goes over into the next.
  split_ifs <;> omega

theorem productArrivals_eq_zero {narrow wide weight : Nat} (beyond : narrow + wide ≤ weight) :
    productArrivals narrow wide weight = 0 := by
  unfold productArrivals
  split_ifs <;> omega

section Heights

variable {columns : List (List Nat)} {m n : Nat}
  (heights : columns.map List.length = (diagonals m n).map List.length)

include heights

/-- The diagonals become longer up to the narrower width, and shorter from the wider width on. -/
theorem height_of_diagonals (weight : Nat) :
    height columns weight = min (min m n) (weight + 1) - (weight + 1 - max m n) := by
  have same : height columns weight = ((diagonals m n).map List.length).getD weight 0 := by
    rw [← heights, height, List.getD_eq_getElem?_getD, List.getD_eq_getElem?_getD, List.getElem?_map]
    cases columns[weight]? <;> rfl
  have there : ((diagonals m n).map List.length).getD weight 0 =
      min m (weight + 1) - (weight + 1 - n) := by
    rw [diagonals, List.map_map, List.getD_eq_getElem?_getD, List.getElem?_map]
    rcases Nat.lt_or_ge weight (m + n - 1) with inside | beyond
    · simp [List.getElem?_range inside, diagonal]
    · rw [List.getElem?_eq_none (by simpa using beyond), Option.map_none, Option.getD_none]
      omega
  rw [same, there]
  omega

/-- Columns of the heights of diagonals have as many wires as the diagonals when they are reached. -/
theorem arrivals_of_diagonals (weight : Nat) :
    arrivals columns weight = productArrivals (min m n) (max m n) weight := by
  induction weight with
  | zero =>
      rw [arrivals_zero, height_of_diagonals heights, productArrivals]
      split_ifs <;> omega
  | succ weight inductionHypothesis =>
      rw [arrivals_succ, inductionHypothesis, height_of_diagonals heights,
        productArrivals_succ (by omega)]

end Heights

/-! ### How many cells -/

/-- The weights at which an even number of wires arrives: those of the ramp but the lowest, and the
first one of the descent. -/
def halfWeights (narrow wide : Nat) : Finset Nat :=
  if 2 ≤ narrow then insert wide (Finset.Ico 1 narrow) else ∅

theorem card_halfWeights {narrow wide : Nat} (order : narrow ≤ wide) :
    (halfWeights narrow wide).card = if 2 ≤ narrow then narrow else 0 := by
  unfold halfWeights
  split
  · have apart : wide ∉ Finset.Ico 1 narrow := by
      rw [Finset.mem_Ico]
      omega
    rw [Finset.card_insert_of_notMem apart, Nat.card_Ico]
    omega
  · rfl

theorem halfWeights_subset (narrow wide : Nat) :
    halfWeights narrow wide ⊆ Finset.range (narrow + wide) := by
  intro weight member
  unfold halfWeights at member
  split at member
  · rw [Finset.mem_insert, Finset.mem_Ico] at member
    rw [Finset.mem_range]
    omega
  · cases member

/-- One half adder is needed at each of these weights, and none at any other. -/
theorem needed_half_productArrivals {narrow wide : Nat} (order : narrow ≤ wide) (weight : Nat) :
    Adder.half.needed (productArrivals narrow wide weight) =
      if weight ∈ halfWeights narrow wide then 1 else 0 := by
  have even : 0 < productArrivals narrow wide weight ∧ productArrivals narrow wide weight % 2 = 0 ↔
      weight ∈ halfWeights narrow wide := by
    unfold productArrivals halfWeights
    split_ifs <;> simp <;> omega
  simp only [Adder.needed, even]

section Traces

variable {columns : List (List Nat)} {m n : Nat} {nl : Netlist} {last : Stage}
  {has : ∀ column ∈ columns, nl.Has column} {bits : List (Nat × Nat)} {cells : List Cell}
  (heights : columns.map List.length = (diagonals m n).map List.length)
  (trace : Trace ⟨nl, 0, columns, has⟩ bits cells last) (empty : last.columns = [])

include heights trace empty

/-- Reducing the diagonals takes one half adder for each bit of the narrower operand, unless that
has fewer than two. -/
theorem countOf_half_of_diagonals :
    countOf cells .half = if 2 ≤ min m n then min m n else 0 := by
  have arrive : ∀ weight, Stage.arrivals ⟨nl, 0, columns, has⟩ weight =
      productArrivals (min m n) (max m n) weight := by
    intro weight
    rw [Stage.arrivals_start, arrivals_of_diagonals heights]
  have bounded : ∀ cell ∈ cells, cell.weight < min m n + max m n := by
    apply trace.weight_lt empty
    intro weight beyond
    rw [arrive, productArrivals_eq_zero beyond]
  calc countOf cells .half
      = ∑ weight ∈ Finset.range (min m n + max m n), countAt cells .half weight :=
        countOf_eq_sum .half bounded
    _ = ∑ weight ∈ Finset.range (min m n + max m n),
          if weight ∈ halfWeights (min m n) (max m n) then 1 else 0 := by
        refine Finset.sum_congr rfl fun weight _ => ?_
        rw [trace.countAt_eq empty, arrive, needed_half_productArrivals (by omega)]
    _ = if 2 ≤ min m n then min m n else 0 := by
        rw [Finset.sum_ite_mem, Finset.inter_eq_right.mpr (halfWeights_subset _ _),
          Finset.sum_const, smul_eq_mul, mul_one, card_halfWeights (by omega)]

/-- Reducing the diagonals takes one full adder for each product that does not become a bit of the
result. -/
theorem countOf_full_of_diagonals :
    m * n = countOf cells .full +
      if min m n = 0 then 0 else if min m n = 1 then m + n - 1 else m + n := by
  have wires : wireCount columns = m * n := by
    rw [wireCount_eq_sum, heights, ← List.length_flatten, length_flatten_diagonals]
  have weights := trace.run.weights_eq_range empty rfl (gapless_of_heights heights)
  have count : bits.length = (capacity columns).size := by
    simpa using congrArg List.length weights
  have spent := trace.wireCount_eq empty
  rw [wires, count, size_capacity_of_diagonals heights] at spent
  rw [spent, add_comm]

end Traces

/-! ### Multipliers -/

/-- A multiplier of existing wires adds the products of all pairs of bits and then the cells that
reduce the diagonals. -/
theorem multiplier_cells {nl : Netlist} {a b : List Nat} (hasA : nl.Has a) (hasB : nl.Has b) :
    ∃ (outputs : List Datum) (array : Netlist) (cells : List Cell),
      (multiplier (a.map .wire) (b.map .wire)).run nl = .ok outputs (array.withCells cells) ∧
      array.kinds =
        nl.kinds ++ (List.replicate (a.length * b.length) productKinds).flatten ∧
      countOf cells .half =
        (if 2 ≤ min a.length b.length then min a.length b.length else 0) ∧
      a.length * b.length = countOf cells .full +
        if min a.length b.length = 0 then 0
        else if min a.length b.length = 1 then a.length + b.length - 1
        else a.length + b.length := by
  obtain ⟨columns, array, first, -, has, heights, -⟩ :=
    partialProducts_computes hasA hasB (inside_diagonals a b)
  obtain ⟨bits, last, runs, run, empty⟩ := compress_run has
  obtain ⟨cells, trace⟩ := run.exists_trace
  refine ⟨(bits.map (·.2)).map .wire, array, cells, ?_, ?_,
    countOf_half_of_diagonals heights trace empty, countOf_full_of_diagonals heights trace empty⟩
  · rw [trace.netlist_eq] at runs
    exact run_multiplier first runs
  · rw [addsKinds_partialProducts _ _ nl _ array first, length_flatten_diagonals]

/-- The circuit of a multiplier has an input for each bit, and then what the multiplier adds. -/
theorem build_multiplier (m n : Nat) (name : String) :
    ∃ (groups : List (String × List Nat)) (outputs : List Datum) (array : Netlist)
      (cells : List Cell),
      (Design.multiplier m n).build.run { name } = .ok (groups, outputs) (array.withCells cells) ∧
      array.kinds = List.replicate (m + n) "input" ++
        (List.replicate (m * n) productKinds).flatten ∧
      countOf cells .half = (if 2 ≤ min m n then min m n else 0) ∧
      m * n = countOf cells .full +
        if min m n = 0 then 0 else if min m n = 1 then m + n - 1 else m + n := by
  obtain ⟨a, first, madeA, growsA, -, hasA, rfl⟩ := run_makeInputs { name } "a" m
  obtain ⟨b, start, madeB, growsB, -, hasB, rfl⟩ := run_makeInputs first "b" n
  obtain ⟨outputs, array, cells, runs, kinds, halves, fulls⟩ :=
    multiplier_cells (hasA.grows growsB) hasB
  refine ⟨[("a", a), ("b", b)], outputs, array, cells, ?_, ?_, halves, fulls⟩
  · simp only [Design.build, EStateM.run_bind, madeA, madeB, runs, EStateM.run_pure]
  · rw [kinds, addsKinds_makeInputs _ _ first b start madeB,
      addsKinds_makeInputs _ _ _ a first madeA, Netlist.kinds_empty, List.nil_append,
      List.replicate_add]

/-- How many gates of a kind there are among inputs and products. -/
theorem count_kinds_array {array : Netlist} {count products : Nat}
    (kinds : array.kinds = List.replicate count "input" ++
      (List.replicate products productKinds).flatten) (kind : String) :
    array.kinds.count kind =
      (List.replicate count "input").count kind + products * productKinds.count kind := by
  rw [kinds, List.count_append, List.count_flatten, List.map_replicate, List.sum_replicate,
    smul_eq_mul]

/-- Only the conjunctions of products cost anything. -/
theorem cost_array {array : Netlist} {count products : Nat}
    (kinds : array.kinds = List.replicate count "input" ++
      (List.replicate products productKinds).flatten) (model : CostModel) :
    model.cost array = products * model.andPrice := by
  simp only [CostModel.cost_eq, count_kinds_array kinds]
  simp [productKinds, List.count_replicate, mul_comm]

/-- What multipliers are made of and what they cost, at every width.  There are two buffers for each
pair of bits.  If both operands have two bits or more, there are besides the products as many half
adders as the narrower operand has bits, and as many full adders as there are more products than
bits.  If one of them has a single bit, there are products only, and if one is empty there is nothing
but inputs. -/
theorem multiplier_cost (m n : Nat) :
    ∃ circuit, (Design.multiplier m n).synthesize = .ok circuit ∧
      circuit.report.countOfKind "buffer" = 2 * m * n ∧
      (2 ≤ min m n →
        circuit.report.xaigCost = m * n + 5 * (m * n - m - n) + 2 * (min m n : Nat) ∧
        circuit.report.aigCost = m * n + 9 * (m * n - m - n) + 4 * (min m n : Nat) ∧
        ∃ (array : Netlist) (cells : List Cell),
          array.kinds = List.replicate (m + n) "input" ++
            (List.replicate (m * n) ["buffer", "buffer", "and"]).flatten ∧
          circuit.netlist = array.withCells cells ∧
          (countOf cells .full : Int) = m * n - m - n ∧ countOf cells .half = min m n) ∧
      (min m n = 1 →
        circuit.report.xaigCost = m * n ∧ circuit.report.aigCost = m * n ∧
        "xor" ∉ circuit.netlist.kinds ∧ "or" ∉ circuit.netlist.kinds) ∧
      (min m n = 0 → circuit.netlist.kinds = List.replicate (m + n) "input") := by
  obtain ⟨groups, outputs, array, cells, built, kinds, halves, fulls⟩ :=
    build_multiplier m n (Design.multiplier m n).netlistName
  obtain ⟨circuit, synthesized, netlist, xaig, aig, counts⟩ := Design.synthesize_priced built
  have pricedXaig : circuit.report.xaigCost =
      m * n + 5 * countOf cells .full + 2 * countOf cells .half := by
    rw [xaig, CostModel.cost_withCells, cost_array kinds]
    simp [CostModel.adderPrice, CostModel.xaig]
    ring
  have pricedAig : circuit.report.aigCost =
      m * n + 9 * countOf cells .full + 4 * countOf cells .half := by
    rw [aig, CostModel.cost_withCells, cost_array kinds]
    simp [CostModel.adderPrice, CostModel.aig]
    ring
  refine ⟨circuit, synthesized, ?_, ?_, ?_, ?_⟩
  · rw [counts, Netlist.kinds_withCells, List.count_append, count_kinds_array kinds,
      count_kinds_cells]
    simp [productKinds, Adder.kinds, List.count_replicate]
    ring
  · intro wide
    rw [if_pos wide] at halves
    rw [if_neg (by omega), if_neg (by omega)] at fulls
    have remaining : (countOf cells .full : Int) = m * n - m - n := by
      zify at fulls
      linear_combination -fulls
    rw [pricedXaig, pricedAig, remaining, halves]
    exact ⟨rfl, rfl, array, cells, kinds, netlist, remaining, halves⟩
  · intro single
    rw [if_neg (by omega)] at halves
    rw [if_neg (by omega), if_pos single] at fulls
    have noFulls : countOf cells .full = 0 := by
      rcases (by omega : m = 1 ∨ n = 1) with rfl | rfl <;> omega
    have noCells := eq_nil_of_countOf halves noFulls
    rw [netlist, noCells, Netlist.withCells_nil]
    refine ⟨by simp [pricedXaig, halves, noFulls], by simp [pricedAig, halves, noFulls], ?_, ?_⟩
    · simp [kinds, productKinds]
    · simp [kinds, productKinds]
  · intro none
    rw [if_neg (by omega)] at halves
    have noProducts : m * n = 0 := Nat.mul_eq_zero.mpr (Nat.min_eq_zero_iff.mp none)
    have noCells := eq_nil_of_countOf halves (by omega)
    rw [netlist, noCells, Netlist.withCells_nil]
    simpa [noProducts] using kinds

end CarrySave
