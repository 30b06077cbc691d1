/-
Module: CarrySave.Proofs.Circuit.AdditionCost
Layer: Proofs
Purpose: What adders and population counts are made of and what they cost, at every width.  In an
  adder two wires arrive at the lowest weight and three at each weight above it, so there is one half
  adder, and a full adder for every other pair of bits.  In a population count the number of bits
  arrives at the lowest weight and its half, rounded down, at each next one, so a weight takes a half
  adder exactly when the digit of the number of bits is a zero there.
Main exports: Design.synthesize_reduced, arrivals_pairColumns, adder_cells, arrivals_singleton,
  sum_needed_half_div, popcount_cells, adder_popcount_cost
-/
import CarrySave.Proofs.Circuit.Addition
import CarrySave.Proofs.Circuit.Population
import CarrySave.Proofs.Circuit.Pricing

namespace CarrySave

open Builder Compressor

/-! ### Circuits of inputs and cells -/

/-- The report on a circuit that has nothing but inputs and cells follows from the number of its half
adders and that of its full adders. -/
theorem Design.synthesize_reduced {design : Design} {groups : List (String × List Nat)}
    {outputs : List Datum} {start : Netlist} {cells : List Cell} {count : Nat}
    (built : design.build.run { name := design.netlistName } =
      .ok (groups, outputs) (start.withCells cells))
    (inputs : start.kinds = List.replicate count "input") :
    ∃ circuit, design.synthesize = .ok circuit ∧ circuit.netlist = start.withCells cells ∧
      circuit.report.xaigCost = 5 * countOf cells .full + 2 * countOf cells .half ∧
      circuit.report.aigCost = 9 * countOf cells .full + 4 * countOf cells .half ∧
      circuit.report.countOfKind "xor" = 2 * countOf cells .full + countOf cells .half ∧
      circuit.report.countOfKind "and" = 2 * countOf cells .full + countOf cells .half ∧
      circuit.report.countOfKind "or" = countOf cells .full := by
  obtain ⟨circuit, synthesized, netlist, xaig, aig, counts⟩ := Design.synthesize_priced built
  have free : ∀ model : CostModel, model.cost start = 0 := by
    intro model
    simp [CostModel.cost_eq, inputs, List.count_replicate]
  have kinds : ∀ kind, circuit.report.countOfKind kind =
      (List.replicate count "input").count kind +
        (countOf cells .half * Adder.half.kinds.count kind +
          countOf cells .full * Adder.full.kinds.count kind : Nat) := by
    intro kind
    rw [counts, Netlist.kinds_withCells, inputs, List.count_append, count_kinds_cells, Nat.cast_add]
  refine ⟨circuit, synthesized, netlist, ?_, ?_, ?_, ?_, ?_⟩
  · rw [xaig, CostModel.cost_withCells, free]
    simp [CostModel.adderPrice, CostModel.xaig]
    ring
  · rw [aig, CostModel.cost_withCells, free]
    simp [CostModel.adderPrice, CostModel.aig]
    ring
  · rw [kinds]
    simp [Adder.kinds, List.count_replicate]
    ring
  · rw [kinds]
    simp [Adder.kinds, List.count_replicate]
    ring
  · rw [kinds]
    simp [Adder.kinds, List.count_replicate]

/-! ### Adders -/

theorem height_pairColumns {a b : List Nat} (same : a.length = b.length) (weight : Nat) :
    height (pairColumns a b) weight = if weight < a.length then 2 else 0 := by
  rw [height, List.getD_eq_getElem?_getD, pairColumns, List.getElem?_zipWith]
  by_cases inside : weight < a.length
  · rw [if_pos inside, List.getElem?_eq_getElem inside, List.getElem?_eq_getElem (same ▸ inside)]
    rfl
  · rw [if_neg inside, List.getElem?_eq_none (Nat.le_of_not_lt inside)]
    rfl

theorem wireCount_pairColumns {a b : List Nat} (same : a.length = b.length) :
    wireCount (pairColumns a b) = 2 * a.length := by
  have heights : (pairColumns a b).map List.length = List.replicate a.length 2 := by
    rw [List.eq_replicate_iff]
    constructor
    · simp [pairColumns, same]
    · intro height member
      obtain ⟨column, place, rfl⟩ := List.mem_map.mp member
      obtain ⟨index, below, rfl⟩ := List.mem_iff_getElem.mp place
      simp [pairColumns]
  rw [wireCount_eq_sum, heights, List.sum_replicate, smul_eq_mul, mul_comm]

/-- At the lowest weight of an adder the two bits arrive, and at the others a carry besides, which is
alone at the weight above the highest. -/
theorem arrivals_pairColumns {a b : List Nat} (same : a.length = b.length) (weight : Nat) :
    arrivals (pairColumns a b) weight =
      if a.length = 0 then 0
      else if weight = 0 then 2
      else if weight < a.length then 3
      else if weight = a.length then 1
      else 0 := by
  induction weight with
  | zero =>
      rw [arrivals_zero, height_pairColumns same]
      grind
  | succ weight inductionHypothesis =>
      rw [arrivals_succ, inductionHypothesis, height_pairColumns same]
      grind

/-- An adder of existing wires adds nothing but cells: a half adder for the lowest bits and a full
adder for each pair of bits above them. -/
theorem adder_cells {nl : Netlist} {a b : List Nat} (hasA : nl.Has a) (hasB : nl.Has b)
    (same : a.length = b.length) (positive : 1 ≤ a.length) :
    ∃ (outputs : List Datum) (cells : List Cell),
      (adder (a.map .wire) (b.map .wire)).run nl = .ok outputs (nl.withCells cells) ∧
      countOf cells .half = 1 ∧ countOf cells .full + 1 = a.length := by
  have has := has_pairColumns hasA hasB
  obtain ⟨bits, last, runs, run, empty⟩ := compress_run has
  obtain ⟨cells, trace⟩ := run.exists_trace
  rw [trace.netlist_eq] at runs
  have arrive : ∀ weight, Stage.arrivals ⟨nl, 0, pairColumns a b, has⟩ weight =
      arrivals (pairColumns a b) weight := Stage.arrivals_start has
  have bounded : ∀ cell ∈ cells, cell.weight < a.length + 1 := by
    apply trace.weight_lt empty
    intro weight beyond
    rw [arrive, arrivals_pairColumns same]
    split_ifs <;> omega
  refine ⟨(bits.map (·.2)).map .wire, cells, ?_, ?_, ?_⟩
  · rw [adder_eq_compress same]
    exact runs
  · have lowest : ∀ weight, countAt cells .half weight = if weight = 0 then 1 else 0 := by
      intro weight
      rw [trace.countAt_eq empty, arrive, arrivals_pairColumns same, Adder.needed]
      grind
    rw [countOf_eq_sum .half bounded]
    simp [lowest]
  · have weights := run.weights_eq_range empty rfl (gapless_of_ne_nil (pairColumns_ne_nil a b))
    have count : bits.length = (capacity (pairColumns a b)).size := by
      simpa using congrArg List.length weights
    have spent := trace.wireCount_eq empty
    rw [wireCount_pairColumns same, count, size_capacity_pairColumns same,
      if_neg (Nat.one_le_iff_ne_zero.mp positive)] at spent
    omega

/-! ### Population counts -/

/-- In a single column half of the wires that arrive at a weight, rounded down, arrive at the next. -/
theorem arrivals_singleton (column : List Nat) (weight : Nat) :
    arrivals [column] weight = column.length / 2 ^ weight := by
  cases weight with
  | zero => rw [arrivals, load_zero]
  | succ weight => rw [arrivals, load_succ, load_nil, mul_zero, add_zero]

/-- A half adder is needed at each weight at which the number of bits has a zero for a digit. -/
theorem sum_needed_half_div (n : Nat) :
    (∑ weight ∈ Finset.range n.size, Adder.half.needed (n / 2 ^ weight)) + n.bits.count true =
      n.size := by
  induction n using Nat.binaryRec' with
  | zero => simp
  | bit b n leading inductionHypothesis =>
      have nonzero : Nat.bit b n ≠ 0 := Nat.bit_ne_zero_iff.mpr leading
      -- Taking off the lowest digit halves the number, so the weights above see the rest of it.
      have above : ∀ weight, Nat.bit b n / 2 ^ (weight + 1) = n / 2 ^ weight := by
        intro weight
        rw [pow_succ', ← Nat.div_div_eq_div_mul, Nat.bit_div_two]
      have lowest : Adder.half.needed (Nat.bit b n) + b.toNat = 1 := by
        rw [Adder.needed, Nat.bit_mod_two]
        cases b with
        | true => simp
        | false =>
            have rest : n ≠ 0 := fun zero => Bool.false_ne_true (leading zero)
            simp [Nat.pos_iff_ne_zero, rest]
      rw [Nat.size_bit nonzero, Finset.sum_range_succ', pow_zero, Nat.div_one, count_bits_bit]
      simp only [above]
      omega

/-- A population count of existing wires adds nothing but cells: a half adder for each zero among the
digits of the number of wires, and a full adder for each wire that does not become a bit of the
result. -/
theorem popcount_cells {nl : Netlist} {wires : List Nat} (has : nl.Has wires) :
    ∃ (outputs : List Datum) (cells : List Cell),
      (popcount (wires.map .wire)).run nl = .ok outputs (nl.withCells cells) ∧
      countOf cells .half + wires.length.bits.count true = wires.length.size ∧
      countOf cells .full + wires.length.size = wires.length := by
  have hasColumn : ∀ column ∈ [wires], nl.Has column := by simpa using has
  obtain ⟨bits, last, runs, run, empty⟩ := compress_run hasColumn
  obtain ⟨cells, trace⟩ := run.exists_trace
  rw [trace.netlist_eq] at runs
  have arrive : ∀ weight, Stage.arrivals ⟨nl, 0, [wires], hasColumn⟩ weight =
      wires.length / 2 ^ weight := by
    intro weight
    rw [Stage.arrivals_start, arrivals_singleton]
  have bounded : ∀ cell ∈ cells, cell.weight < wires.length.size := by
    apply trace.weight_lt empty
    intro weight beyond
    rw [arrive, Nat.div_eq_of_lt (Nat.size_le.mp beyond)]
  refine ⟨(bits.map (·.2)).map .wire, cells, ?_, ?_, ?_⟩
  · rw [popcount]
    exact runs
  · rw [countOf_eq_sum .half bounded]
    simp only [trace.countAt_eq empty, arrive]
    exact sum_needed_half_div wires.length
  · have weights := run.weights_eq_range empty rfl (gapless_singleton wires)
    have count : bits.length = wires.length.size := by
      simpa [capacity] using congrArg List.length weights
    have spent := trace.wireCount_eq empty
    rw [wireCount_cons, wireCount_nil, count] at spent
    omega

/-! ### What they cost -/

/-- What adders and population counts are made of and what they cost, at every width.  An adder has a
half adder and one full adder less than it has bits.  A population count has a full adder for each
bit that is more than the digits of its width, and a half adder for each zero among these digits. -/
theorem adder_popcount_cost {n : Nat} (positive : 1 ≤ n) :
    (∃ circuit, (Design.adder n).synthesize = .ok circuit ∧
      circuit.report.xaigCost = 2 + 5 * (n - 1) ∧
      circuit.report.aigCost = 4 + 9 * (n - 1) ∧
      circuit.report.countOfKind "xor" = 2 * n - 1 ∧
      circuit.report.countOfKind "and" = 2 * n - 1 ∧
      circuit.report.countOfKind "or" = n - 1) ∧
    ∃ circuit, (Design.popcount n).synthesize = .ok circuit ∧
      circuit.report.xaigCost = 5 * (n - n.size) + 2 * (n.size - n.bits.count true) ∧
      circuit.report.aigCost = 9 * (n - n.size) + 4 * (n.size - n.bits.count true) ∧
      ∃ (start : Netlist) (cells : List Cell),
        start.kinds = List.replicate n "input" ∧ circuit.netlist = start.withCells cells ∧
        (countOf cells .full : Int) = n - n.size ∧
        (countOf cells .half : Int) = n.size - n.bits.count true := by
  constructor
  · obtain ⟨a, b, first, start, madeA, madeB, -, -, hasA, hasB, widthA, widthB, built⟩ :=
      (Design.adder n).build_two adder rfl
    obtain ⟨outputs, cells, runs, halves, fulls⟩ :=
      adder_cells hasA hasB (widthA.trans widthB.symm) (widthA.symm ▸ positive)
    have inputs : start.kinds = List.replicate (n + n) "input" := by
      rw [addsKinds_makeInputs _ _ first b start madeB, addsKinds_makeInputs _ _ _ a first madeA,
        Netlist.kinds_empty, List.nil_append, List.replicate_add]
    obtain ⟨circuit, synthesized, -, xaig, aig, xors, ands, ors⟩ :=
      Design.synthesize_reduced (built runs) inputs
    have remaining : (countOf cells .full : Int) = n - 1 := by omega
    rw [halves, remaining] at xaig aig xors ands
    rw [remaining] at ors
    refine ⟨circuit, synthesized, ?_, ?_, ?_, ?_, ors⟩
    · linear_combination xaig
    · linear_combination aig
    · linear_combination xors
    · linear_combination ands
  · obtain ⟨wires, start, made, -, -, has, rfl, built⟩ := (Design.popcount n).build_one popcount rfl
    obtain ⟨outputs, cells, runs, halves, fulls⟩ := popcount_cells has
    have inputs : start.kinds = List.replicate wires.length "input" := by
      rw [addsKinds_makeInputs _ _ _ wires start made, Netlist.kinds_empty, List.nil_append]
    obtain ⟨circuit, synthesized, netlist, xaig, aig, -, -, -⟩ :=
      Design.synthesize_reduced (built runs) inputs
    have full : (countOf cells .full : Int) = wires.length - wires.length.size := by omega
    have half : (countOf cells .half : Int) =
        wires.length.size - wires.length.bits.count true := by omega
    rw [full, half] at xaig aig
    exact ⟨circuit, synthesized, xaig, aig, start, cells, inputs, netlist, full, half⟩

/-- An adder of thirteen bits, and a population count of thirteen, which has the digits 1101. -/
theorem adder_popcount_cost_thirteen :
    1 ≤ 13 ∧
    (∃ circuit, (Design.adder 13).synthesize = .ok circuit ∧ circuit.report.aigCost = 112) ∧
    ∃ circuit, (Design.popcount 13).synthesize = .ok circuit ∧ circuit.report.xaigCost = 47 := by
  obtain ⟨⟨sum, sumMade, -, sumAig, -⟩, count, countMade, countXaig, -⟩ :=
    adder_popcount_cost (n := 13) (by decide)
  refine ⟨by decide, ⟨sum, sumMade, sumAig⟩, count, countMade, ?_⟩
  rw [countXaig]
  decide

end CarrySave
