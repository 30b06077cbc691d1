/-
Module: CarrySave.Proofs.Netlist.Tally
Layer: Proofs
Purpose: Costs, counts and links of a netlist agree.  The counts of all kinds add up to the size, a
  price is the sum over the operators of their price times their count, and the links of the graph are
  two for each gate with an operator and one for each buffer.  Prices are never taken back.
Main exports: Roster.sum_insertInto, Netlist.sum_kindCounts, Netlist.countOf_eq,
  Netlist.length_wireLinks, CostModel.price_ofPrices, CostModel.cost_grows, Tally,
  Netlist.costs_consistent
-/
import CarrySave.Proofs.Circuit.Pricing
import CarrySave.Proofs.Netlist.Adjacency

namespace CarrySave

/-! ### Counts -/

/-- Setting a value in place of another changes the sum of the values by their difference. -/
theorem Roster.sum_insertInto {κ : Type} [DecidableEq κ] (key : κ) (value : Nat)
    (entries : List (κ × Nat)) :
    ((insertInto key value entries).map (·.2)).sum + (entries.lookup key).getD 0 =
      (entries.map (·.2)).sum + value := by
  induction entries with
  | nil => simp [insertInto]
  | cons entry rest inductionHypothesis =>
      obtain ⟨k, v⟩ := entry
      by_cases same : k = key
      · subst same
        simp only [insertInto, if_true, List.map_cons, List.sum_cons, List.lookup_cons_self,
          Option.getD_some]
        ring
      · have other : (key == k) = false := beq_eq_false_iff_ne.mpr (Ne.symm same)
        simp only [insertInto, if_neg same, List.map_cons, List.sum_cons, List.lookup_cons, other,
          Nat.add_assoc, inductionHypothesis]

namespace Netlist

/-- The counts of all kinds add up to the number of gates. -/
theorem sum_kindCounts (nl : Netlist) : nl.kindCounts.values.sum = nl.size := by
  induction nl using push_induction with
  | empty name => rfl
  | push nl gate inductionHypothesis =>
      have counted : (nl.push gate).kindCounts = countKind nl.kindCounts gate.kind := by
        simp [kindCounts, push]
      have sum := Roster.sum_insertInto gate.kind ((nl.kindCounts.get? gate.kind).getD 0 + 1)
        nl.kindCounts.entries
      rw [← Roster.get?] at sum
      change (countKind nl.kindCounts gate.kind).values.sum + _ = nl.kindCounts.values.sum + _ at sum
      rw [counted, size_push]
      omega

/-- Each kind is counted as often as it occurs among the gates. -/
theorem countOf_eq (nl : Netlist) (kind : String) : nl.countOf kind = nl.kinds.count kind := by
  rw [countOf, get?_kindCounts]
  split
  · rename_i none
    rw [none]
    rfl
  · rfl

/-- Every gate is an input, a buffer, or has one of the three operators. -/
theorem size_eq_counts (nl : Netlist) :
    nl.size = nl.kinds.count "input" + nl.kinds.count "buffer" +
      (nl.kinds.count "and" + nl.kinds.count "or" + nl.kinds.count "xor") := by
  induction nl using push_induction with
  | empty name => rfl
  | push nl gate inductionHypothesis =>
      rw [size_push, inductionHypothesis, kinds_push]
      cases gate with
      | input label => simp [Gate.kind]; ring
      | buffer source => simp [Gate.kind]; ring
      | logic op a b => cases op <;> simp [Gate.kind, Op.name] <;> ring

/-- Each gate with an operator has two links to it, and each buffer has one. -/
theorem length_wireLinks (nl : Netlist) :
    nl.wireLinks.length = 2 * CostModel.xaig.cost nl + nl.kinds.count "buffer" := by
  induction nl using push_induction with
  | empty name => rfl
  | push nl gate inductionHypothesis =>
      rw [wireLinks_push, List.length_append, inductionHypothesis, List.length_map,
        CostModel.cost_push, kinds_push]
      cases gate with
      | input label => simp [Gate.operands, CostModel.gatePrice, Gate.op?, Gate.kind]
      | buffer source =>
          simp [Gate.operands, CostModel.gatePrice, Gate.op?, Gate.kind]
          ring
      | logic op a b =>
          cases op <;>
            simp [Gate.operands, CostModel.gatePrice, Gate.op?, Gate.kind, CostModel.price,
              CostModel.xaig, Op.name] <;> ring

/-- No exclusive or is counted just when no gate is one. -/
theorem count_xor_eq_zero_iff (nl : Netlist) :
    nl.kinds.count "xor" = 0 ↔ ∀ wire a b : Nat, nl.gates[wire]? ≠ some (.logic .xor a b) := by
  rw [List.count_eq_zero, kinds, List.mem_map]
  constructor
  · rintro absent wire a b found
    exact absent ⟨_, Array.mem_toList_iff.mpr (Array.mem_of_getElem? found), rfl⟩
  · rintro absent ⟨gate, member, kind⟩
    obtain ⟨wire, found⟩ := Array.getElem?_of_mem (Array.mem_toList_iff.mp member)
    cases gate with
    | input label => simp [Gate.kind] at kind
    | buffer source => simp [Gate.kind] at kind
    | logic op a b =>
        cases op with
        | and => simp [Gate.kind, Op.name] at kind
        | or => simp [Gate.kind, Op.name] at kind
        | xor => exact absent wire a b found

end Netlist

/-! ### Prices -/

namespace CostModel

/-- A model from a table has the prices of the table, and none of them is negative. -/
theorem price_ofPrices {name description : String} {prices : Roster Op Int} {model : CostModel}
    (valid : ofPrices name description prices = .ok model) (op : Op) :
    prices.get? op = some (model.price op : Int) := by
  simp only [ofPrices] at valid
  split at valid
  · cases valid
  rename_i complete
  split at valid
  · cases valid
  rename_i nonneg
  cases valid
  have present := List.filter_eq_nil_iff.mp (not_not.mp complete) op (by cases op <;> decide)
  obtain ⟨price, found⟩ : ∃ price, prices.get? op = some price :=
    Option.ne_none_iff_exists'.mp (by simpa using present)
  have natural : 0 ≤ price := by
    obtain ⟨before, after, split, -⟩ := List.lookup_eq_some_iff.mp found
    have member : (op, price) ∈ prices.entries := by simp [split]
    simpa using List.find?_eq_none.mp nonneg _ member
  have kept : ((((prices.get? op).getD 0).toNat : Nat) : Int) = price := by
    rw [found, Option.getD_some, Int.toNat_of_nonneg natural]
  rw [found]
  cases op <;> exact congrArg some kept.symm

/-- A netlist that only grows becomes no cheaper. -/
theorem cost_grows (model : CostModel) {before after : Netlist} (grown : before.Grows after) :
    model.cost before ≤ model.cost after := by
  induction grown with
  | refl => exact Nat.le_refl _
  | push gate _ _ inductionHypothesis =>
      rw [cost_push]
      exact Nat.le_trans inductionHypothesis (Nat.le_add_right _ _)

end CostModel

/-! ### Agreement -/

/-- How many gates there are and how many links, the prices under the two standard models, and the
counts of the kinds agree. -/
structure Tally (size links xaig aig : Int) (count : String → Int) : Prop where
  size_eq : size = count "input" + count "buffer" + (count "and" + count "or" + count "xor")
  links_eq : links = 2 * xaig + count "buffer"
  xaig_eq : xaig = count "and" + count "or" + count "xor"
  aig_eq : aig = xaig + 2 * count "xor"
  le_aig : xaig ≤ aig
  aig_eq_iff : aig = xaig ↔ count "xor" = 0
  aig_le : aig ≤ 3 * xaig

/-- The numbers of a netlist agree. -/
theorem Netlist.tally (nl : Netlist) :
    Tally nl.size nl.toGraph.links.length (CostModel.xaig.cost nl) (CostModel.aig.cost nl)
      fun kind => nl.countOf kind := by
  have size := nl.size_eq_counts
  have links := nl.length_wireLinks
  have xaig := CostModel.xaig.cost_eq nl
  have aig := CostModel.aig.cost_eq nl
  simp only [CostModel.xaig, Nat.one_mul] at xaig links
  simp only [CostModel.aig, Nat.one_mul] at aig
  simp only [links_toGraph, List.length_map, countOf_eq, CostModel.xaig, CostModel.aig]
  constructor <;> omega

/-- Costs, counts and links of a netlist agree.  The counts of the kinds add up to the size.  Under
every model from a table of prices a netlist costs what the table says for the gates of each operator,
never less than nothing, and no session makes it cheaper.  The two standard prices, the counts and the
number of links agree with each other, in the netlist and in every report on it, and the standard
prices are equal just when there is no exclusive or. -/
theorem Netlist.costs_consistent (nl : Netlist) :
    (∀ kind, nl.countOf kind = nl.kinds.count kind) ∧
    nl.kindCounts.values.sum = nl.size ∧
    (∀ (name description : String) (prices : Roster Op Int) (model : CostModel),
      CostModel.ofPrices name description prices = .ok model →
      ∃ andPrice orPrice xorPrice : Int,
        prices.get? .and = some andPrice ∧ prices.get? .or = some orPrice ∧
        prices.get? .xor = some xorPrice ∧
        (model.cost nl : Int) = andPrice * nl.countOf "and" + orPrice * nl.countOf "or" +
          xorPrice * nl.countOf "xor" ∧
        0 ≤ andPrice * nl.countOf "and" + orPrice * nl.countOf "or" +
          xorPrice * nl.countOf "xor" ∧
        ∀ (session : Session) (requests : List Request),
          model.cost session.netlist ≤ model.cost (session.serveAll requests).netlist) ∧
    Tally nl.size nl.toGraph.links.length (CostModel.xaig.cost nl) (CostModel.aig.cost nl)
      (fun kind => nl.countOf kind) ∧
    (CostModel.aig.cost nl = CostModel.xaig.cost nl ↔
      ∀ wire a b : Nat, nl.gates[wire]? ≠ some (.logic .xor a b)) ∧
    ∀ (name : String) (inputs : Roster String (List Datum)) (outputs : List Datum),
      (Report.collect name nl inputs outputs).kindCounts.values.sum = nl.size ∧
      Tally nl.size nl.toGraph.links.length (Report.collect name nl inputs outputs).xaigCost
        (Report.collect name nl inputs outputs).aigCost
        (Report.collect name nl inputs outputs).countOfKind := by
  refine ⟨nl.countOf_eq, nl.sum_kindCounts, ?_, nl.tally, ?_, ?_⟩
  · intro name description prices model valid
    have priced := CostModel.price_ofPrices valid
    have cost := model.cost_eq nl
    simp only [← countOf_eq] at cost
    refine ⟨_, _, _, priced .and, priced .or, priced .xor, ?_, by positivity, ?_⟩
    · rw [cost]
      push_cast
      rfl
    · intro session requests
      exact model.cost_grows (session.serveAll_grows requests)
  · rw [← count_xor_eq_zero_iff, ← countOf_eq]
    exact_mod_cast nl.tally.aig_eq_iff
  · intro name inputs outputs
    refine ⟨?_, ?_⟩
    · have values : (nl.kindCounts.mapValues Int.ofNat).values =
          nl.kindCounts.values.map Nat.cast := by
        simp [Roster.values, Roster.mapValues]
      rw [Report.collect, values, ← Nat.cast_list_sum, nl.sum_kindCounts]
    · have counts : (Report.collect name nl inputs outputs).countOfKind =
          fun kind => (nl.countOf kind : Int) := by
        funext kind
        rw [Report.countOfKind_collect, countOf_eq]
      rw [counts]
      exact nl.tally

/-- A table of prices in which exclusive or is dearest. -/
def dearXor : Roster Op Int :=
  ⟨[(.xor, 5), (.and, 2), (.or, 3)]⟩

/-- One conjunction and one exclusive or, at two and at five. -/
theorem Netlist.costs_consistent_sharedGate :
    ∃ model, CostModel.ofPrices "dear" "" dearXor = .ok model ∧ (model.cost sharedGate : Int) = 7 := by
  refine ⟨_, rfl, ?_⟩
  obtain ⟨counted, -, priced, -⟩ := costs_consistent sharedGate
  obtain ⟨_, _, _, ands, ors, xors, cost, -⟩ := priced "dear" "" dearXor _ rfl
  cases ands
  cases ors
  cases xors
  rw [cost, counted, counted, counted]
  decide

end CarrySave
