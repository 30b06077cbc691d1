/-
Module: CarrySave.Proofs.Signal.Exhaustion
Layer: Proofs
Purpose: Exhaustive checks.  A check evaluates all numbers of the bits of its operands at once;
  the case of a number gives the operands its fields.  Its failures are exactly the cases in
  which running the netlist on the operands by themselves gives something else than expected,
  in order, and every tuple of operands is the case of one number.
Main exports: Assignment.exhaustive, Netlist.Yields, operandColumns_bitFields, mismatches_range,
  Report.Checkable, Netlist.check_eq, Netlist.check_table, Netlist.exists_check_rule,
  Netlist.check_exhaustive
-/
import CarrySave.Proofs.Signal.CaseByCase
import CarrySave.Proofs.Signal.Fields

namespace CarrySave

/-! ### All cases at once -/

/-- The bit of a place in all numbers of some bits. -/
def pattern (count place : Nat) : Array Bool :=
  (Array.range (2 ^ count)).map fun number => number.testBit place

/-- The assignment that gives wires their bits in all numbers of as many bits. -/
def Assignment.exhaustive (wires : List Nat) : Assignment :=
  ⟨entriesOn wires fun place => (Signal.number (.many (pattern wires.length place)))⟩

/-- Words are accepted in a batch. -/
theorem checked_of_words {values : Array Int} (words : ∀ value ∈ values, isWord value = true) :
    (Batch.many values).checked = .ok (.many values) := by
  have none : values.find? (!isWord ·) = none := by simpa using words
  simp only [Batch.checked, none]

theorem exhaustiveInputs_eq {count : Nat} (few : count ≤ 24) :
    exhaustiveInputs count = .ok (2 ^ count, (List.range count).map (pattern count)) := by
  have notNegative : ¬(count : Int) < 0 := by omega
  have notMany : ¬(Error.maxEnumeratedBits : Int) < count := by
    simp only [Error.maxEnumeratedBits]
    omega
  simp [exhaustiveInputs, notNegative, notMany, pattern]

theorem ofPairs_patterns {wires : List Nat} (distinct : wires.Nodup) :
    Assignment.ofPairs ((wires.map .wire).zip
        ((((List.range wires.length).map (pattern wires.length)).map Batch.many).map
          Signal.number)) = .ok (.exhaustive wires) := by
  have paired : (wires.map Datum.wire).zip
      ((((List.range wires.length).map (pattern wires.length)).map Batch.many).map
        Signal.number) =
      (wires.zip (List.range wires.length)).map fun place =>
        (Datum.wire place.1, Signal.number (.many (pattern wires.length place.2))) := by
    rw [List.map_map, List.map_map, List.zip_map]
    rfl
  have checked : ∀ place ∈ wires.zip (List.range wires.length),
      (Signal.number (.many (pattern wires.length place.2))).checked =
        .ok (Signal.number (.many (pattern wires.length place.2))) := by
    intro place _
    apply checked_of_words
    intro value member
    obtain ⟨bit, _, rfl⟩ := Array.mem_map.mp member
    exact isWord_bitValue bit
  have keys : (entriesOn wires fun place =>
      Signal.number (.many (pattern wires.length place))).map (·.1) = wires.map Int.ofNat :=
    keys_entriesOn _ _
  have entered := Roster.ofList_of_nodup (keys ▸ distinct.map Int.ofNat_injective)
  rw [paired, ofPairs_checked checked]
  exact congrArg Except.ok entered

/-- The bit of a number in its own case. -/
theorem inCase_pattern {count place index : Nat} {bit : Bool} (below : place < count)
    (entry : (Batch.many (pattern count place)).inCase index = some bit) :
    bit = index.testBit place := by
  have several : (pattern count place).size ≠ 1 := by
    rw [pattern, Array.size_map, Array.size_range]
    exact (Nat.one_lt_two_pow (Nat.ne_of_gt (Nat.zero_lt_of_lt below))).ne'
  rw [Batch.inCase, if_neg several] at entry
  obtain ⟨inside, rfl⟩ := Array.getElem?_eq_some_iff.mp entry
  simp [pattern]

section Exhaustive

variable {nl : Netlist} {wires : List Nat} (distinct : wires.Nodup)

include distinct

theorem get?_exhaustive {place : Nat} (below : place < wires.length) :
    (Assignment.exhaustive wires).get? wires[place] =
      some (Signal.number (.many (pattern wires.length place))) := by
  apply Roster.get?_of_mem
  · rw [Assignment.exhaustive, Roster.keys, keys_entriesOn]
    exact distinct.map Int.ofNat_injective
  · exact mem_entriesOn below fun place => Signal.number (.many (pattern wires.length place))

variable (all : ∀ wire ∈ nl.inputs, wire ∈ wires)

include all

/-- Every input has a batch, and all batches have one entry for each number. -/
theorem exhaustive_uniform :
    (Assignment.exhaustive wires).Supplies nl ∧
      (Assignment.exhaustive wires).Uniform nl (2 ^ wires.length) := by
  constructor
  · intro wire input
    obtain ⟨place, below, rfl⟩ := List.mem_iff_getElem.mp (all wire input)
    exact .inr ⟨_, get?_exhaustive distinct below⟩
  · intro wire input values given
    obtain ⟨place, below, rfl⟩ := List.mem_iff_getElem.mp (all wire input)
    rw [get?_exhaustive distinct below] at given
    cases given
    simp [pattern]

/-- In the case of a number every input has its bit of the number, and the netlist settles as it
does when just these bits are given. -/
theorem exhaustive_portrays (ordered : nl.Ordered) :
    ∃ level : Nat → Nat → Bool,
      (∀ number : Nat,
        nl.evaluate ⟨bitEntries wires number⟩ = .ok (signalsOf nl.size (level number))) ∧
      (Assignment.exhaustive wires).Portrays nl level := by
  have distinctOperand : ∀ number : Nat,
      ([(wires, (number : Int))].flatMap (·.1)).Nodup := fun number => by simpa using distinct
  have covers : ∀ number : Nat, (Assignment.ofOperands [(wires, (number : Int))]).Covers nl :=
    fun number => covers_ofOperands (distinctOperand number) (by simpa using all)
  choose level evaluated settled assigned using fun number =>
    Netlist.evaluate_settled ordered (covers number)
  refine ⟨level, fun number => ?_, settled, ?_⟩
  · simpa [Assignment.ofOperands] using evaluated number
  · intro wire input value given index number entry
    obtain ⟨place, below, rfl⟩ := List.mem_iff_getElem.mp (all wire input)
    rw [get?_exhaustive distinct below] at given
    cases given
    rw [Signal.number, Batch.inCase_map, Option.map_eq_some_iff] at entry
    obtain ⟨bit, entry, rfl⟩ := entry
    have found := get?_ofOperands (distinctOperand index)
      (List.mem_singleton_self (wires, (index : Int))) below
    rw [assigned index _ input, Assignment.level, found, bitOf_bitValue, bitOf_natCast]
    simp only [bitOf_bitValue]
    exact (inCase_pattern below entry).symm

end Exhaustive

/-! ### One case by itself -/

/-- What outputs make when every group of wires is given an operand. -/
def Netlist.Yields (nl : Netlist) (groups : List (List Nat)) (operands : List Nat)
    (outputs : List Nat) (result : Int) : Prop :=
  ∃ assignment,
    Design.assignOperands (groups.map fun group => group.map .wire)
      (operands.map fun operand : Nat => .one operand) = .ok assignment ∧
    nl.run assignment (outputs.map .wire) = .ok (.one result)

/-- In the case of a number the groups are given its fields. -/
theorem assignOperands_bitFields {groups : List (List Nat)} (distinct : groups.flatten.Nodup)
    (number : Nat) :
    Design.assignOperands (groups.map fun group => group.map .wire)
      ((bitFields (groups.map List.length) number).map fun operand : Nat => .one operand) =
        .ok ⟨bitEntries groups.flatten number⟩ := by
  let fields := (bitFields (groups.map List.length) number).map Int.ofNat
  have sameLength : groups.length = fields.length := by simp [fields]
  have wires : (groups.zip fields).map Prod.fst = groups :=
    List.map_fst_zip (Nat.le_of_eq sameLength)
  have values : (groups.zip fields).map Prod.snd = fields :=
    List.map_snd_zip (Nat.le_of_eq sameLength.symm)
  have distinctOperands : ((groups.zip fields).flatMap (·.1)).Nodup := by
    rwa [List.flatMap_def, wires]
  calc Design.assignOperands (groups.map fun group => group.map .wire)
        ((bitFields (groups.map List.length) number).map fun operand : Nat => .one operand)
      = Design.assignOperands (((groups.zip fields).map Prod.fst).map fun group => group.map .wire)
          (((groups.zip fields).map Prod.snd).map .one) := by
        rw [wires, values, List.map_map]
        rfl
    _ = Design.assignOperands ((groups.zip fields).map fun operand => operand.1.map .wire)
          ((groups.zip fields).map fun operand => .one operand.2) := by
        rw [List.map_map, List.map_map]
        rfl
    _ = .ok (.ofOperands (groups.zip fields)) := assignOperands_single distinctOperands
    _ = .ok ⟨bitEntries groups.flatten number⟩ := by rw [ofOperands_bitFields]

/-- On the fields of a number, outputs make what they make at the levels of its bits. -/
theorem Netlist.yields_bitFields {nl : Netlist} {groups : List (List Nat)} {outputs : List Nat}
    {number : Nat} {level : Nat → Bool} (distinct : groups.flatten.Nodup)
    (has : nl.Has outputs)
    (evaluated : nl.evaluate ⟨bitEntries groups.flatten number⟩ = .ok (signalsOf nl.size level))
    (result : Int) :
    nl.Yields groups (bitFields (groups.map List.length) number) outputs result ↔
      result = numberOn level outputs := by
  have run := run_eq_numberOn evaluated has
  constructor
  · rintro ⟨assignment, assigned, made⟩
    rw [assignOperands_bitFields distinct] at assigned
    cases assigned
    rw [run] at made
    cases made
    rfl
  · rintro rfl
    exact ⟨_, assignOperands_bitFields distinct number, run⟩

/-! ### All cases in order -/

/-- Signals that hold, in each case, the lowest bits of a number. -/
def bitRows (cases count : Nat) (number : Nat → Nat) : List Signal :=
  (List.range count).map fun place =>
    .many ((Array.range cases).map fun index => (number index).testBit place)

theorem bitRows_add (cases count further : Nat) (number : Nat → Nat) :
    bitRows cases (count + further) number =
      bitRows cases count number ++
        bitRows cases further fun index => number index / 2 ^ count := by
  simp [bitRows, List.range_add, Nat.testBit_div_two_pow, Nat.add_comm]

/-- The lowest bits of numbers make their remainders. -/
theorem bitsToInt_bitRows (cases : Nat) {width : Nat} (narrow : width ≤ Error.maxBatchBits)
    (number : Nat → Nat) :
    ∃ value, bitsToInt ((bitRows cases width number).map Signal.number) = .ok value ∧
      value.Amounts cases fun index => ((number index % 2 ^ width : Nat) : Int) := by
  have each : ∀ place ∈ List.range width,
      (Batch.many ((Array.range cases).map fun index => (number index).testBit place)).Amounts
        cases fun index => (number index).testBit place :=
    fun place _ => Batch.Amounts.many_range fun index => (number index).testBit place
  obtain ⟨value, made, amounts, _⟩ := bitsToInt_amounts each (by simpa using narrow)
  refine ⟨value, ?_, amounts.congr fun index _ => ?_⟩
  · rw [bitRows, List.map_map]
    exact made
  · have bits := weightedSum_bits (number index) width
    simp only [bitOf_natCast] at bits
    rw [bits]
    push_cast
    rfl

/-- Taking rows of bits off in groups cuts the number of each case into fields. -/
theorem operandColumns_bitFields (cases : Nat) {widths : List Nat}
    (narrow : ∀ width ∈ widths, width ≤ Error.maxBatchBits) (number : Nat → Nat) :
    ∃ columns, operandColumns cases widths (bitRows cases widths.sum number) = .ok columns ∧
      ∀ index < cases,
        caseOf columns index = (bitFields widths (number index)).map Int.ofNat := by
  induction widths generalizing number with
  | nil => exact ⟨[], rfl, fun _ _ => rfl⟩
  | cons width widths inductionHypothesis =>
      obtain ⟨narrowFirst, narrowRest⟩ := List.forall_mem_cons.mp narrow
      obtain ⟨value, made, amounts⟩ := bitsToInt_bitRows cases narrowFirst number
      obtain ⟨columns, rest, fields⟩ :=
        inductionHypothesis narrowRest fun index => number index / 2 ^ width
      have rows : (bitRows cases width number).length = width := by simp [bitRows]
      refine ⟨value.spread cases :: columns, ?_, fun index below => ?_⟩
      · rw [List.sum_cons, bitRows_add, operandColumns, List.take_left' rows,
          List.drop_left' rows, made, rest]
        rfl
      · rw [bitFields, List.map_cons, ← fields index below, amounts.spread_eq]
        simp [caseOf, below]

/-- The operands of the cases are the fields of their numbers. -/
theorem operandColumns_patterns {groups : List (List Nat)}
    (few : groups.flatten.length ≤ Error.maxBatchBits) :
    ∃ columns, operandColumns (2 ^ groups.flatten.length) (groups.map List.length)
        (((List.range groups.flatten.length).map (pattern groups.flatten.length)).map .many) =
          .ok columns ∧
      (List.range (2 ^ groups.flatten.length)).map (caseOf columns) =
        (List.range (2 ^ groups.flatten.length)).map fun number =>
          (bitFields (groups.map List.length) number).map Int.ofNat := by
  have rows : ((List.range groups.flatten.length).map (pattern groups.flatten.length)).map .many =
      bitRows (2 ^ groups.flatten.length) (groups.map List.length).sum id := by
    rw [List.map_map, List.length_flatten]
    rfl
  have narrow : ∀ width ∈ groups.map List.length, width ≤ Error.maxBatchBits := by
    intro width member
    have part := List.le_sum_of_mem member
    rw [← List.length_flatten] at part
    exact part.trans few
  obtain ⟨columns, split, fields⟩ :=
    operandColumns_bitFields (2 ^ groups.flatten.length) narrow id
  refine ⟨columns, rows ▸ split, ?_⟩
  exact List.map_congr_left fun number member => fields number (List.mem_range.mp member)

/-- The cases in which two results differ, by their positions. -/
theorem mismatches_range {count : Nat} (operands : Nat → List Int) (expected : Vector Int count)
    (actual : Nat → Int) :
    mismatches ((List.range count).map operands) expected.toArray
        ((Array.range count).map actual) =
      (List.finRange count).filterMap fun index : Fin count =>
        if actual index = expected[index] then none
        else some ⟨operands index, expected[index], actual index⟩ := by
  have zipped : ((List.range count).map operands).zip
        (expected.toArray.toList.zip ((Array.range count).map actual).toList) =
      (List.finRange count).map fun index : Fin count =>
        (operands index, expected[index], actual index) := by
    apply List.ext_getElem (by simp)
    intro index _ _
    simp
  rw [mismatches, zipped, List.filterMap_map]
  rfl

/-! ### Checks -/

/-- A report that can be checked on all operands.  Its operands are on wires of their own, which
comprise all inputs of the netlist, and its outputs are read from existing wires. -/
structure Report.Checkable (report : Report) (nl : Netlist) (groups : List (List Nat))
    (outputs : List Nat) : Prop where
  inputs_eq : report.inputs.values = groups.map fun group => group.map .wire
  outputs_eq : report.outputs = outputs.map .wire
  distinct : groups.flatten.Nodup
  all_inputs : ∀ wire ∈ nl.inputs, wire ∈ groups.flatten
  has_outputs : nl.Has outputs
  few_inputs : groups.flatten.length ≤ 24
  few_outputs : outputs.length ≤ 63

theorem requireBits_of_le {name : String} {count : Nat} (few : count ≤ 24) :
    requireBits name count = .ok () := by
  have notMany : ¬(Error.maxEnumeratedBits : Int) < count := by
    simp only [Error.maxEnumeratedBits]
    omega
  rw [requireBits, if_neg notMany]

/-- A table of words is accepted, and it is the expected result of as many cases. -/
theorem expectation_table {count : Nat} {expected : Vector Int count}
    (words : ∀ value ∈ expected.toArray, isWord value = true) :
    (Expectation.table expected.toArray).checked = .ok () ∧
      ∀ operands : Nat → List Int, (Expectation.table expected.toArray).results
        ((List.range count).map operands) = .ok expected.toArray := by
  refine ⟨?_, fun operands => by simp [Expectation.results]⟩
  rw [Expectation.checked, checked_of_words words]
  rfl

section Check

variable {nl : Netlist} {report : Report} {groups : List (List Nat)} {outputs : List Nat}

/-- A check against expected results reports the cases in which the outputs make something else. -/
theorem Netlist.check_eq (ordered : nl.Ordered) (checkable : report.Checkable nl groups outputs)
    {level : Nat → Nat → Bool} (portrays : (Assignment.exhaustive groups.flatten).Portrays nl level)
    {expected : Expectation} {wanted : Array Int} (accepted : expected.checked = .ok ())
    (results : expected.results ((List.range (2 ^ groups.flatten.length)).map fun number =>
      (bitFields (groups.map List.length) number).map Int.ofNat) = .ok wanted) :
    nl.check report expected = .ok
      { report
        cases := 2 ^ groups.flatten.length
        failures := mismatches
          ((List.range (2 ^ groups.flatten.length)).map fun number =>
            (bitFields (groups.map List.length) number).map Int.ofNat)
          wanted
          ((Array.range (2 ^ groups.flatten.length)).map fun number =>
            numberOn (level number) outputs) } := by
  have few := checkable.few_inputs
  obtain ⟨supplies, uniform⟩ := exhaustive_uniform checkable.distinct checkable.all_inputs
  obtain ⟨signals, result, evaluated, read, amounts, _⟩ :=
    run_uniform ordered supplies portrays uniform checkable.has_outputs checkable.few_outputs
  obtain ⟨columns, split, operands⟩ := operandColumns_patterns (few.trans (by decide))
  have wires : (groups.map fun group => group.map Datum.wire).flatten =
      groups.flatten.map Datum.wire := List.map_flatten.symm
  have widths : (groups.map fun group => group.map Datum.wire).map List.length =
      groups.map List.length := by simp [Function.comp_def]
  simp only [check, accepted, checkable.inputs_eq, checkable.outputs_eq, wires, widths,
    List.length_map, requireBits_of_le few, exhaustiveInputs_eq few,
    ofPairs_patterns checkable.distinct, evaluated, read, split, operands, results, bind,
    Except.bind, pure, Except.pure]
  rw [amounts.spread_eq]

/-- A check against a table reports the numbers on which the outputs make something else. -/
theorem Netlist.check_table (ordered : nl.Ordered) (checkable : report.Checkable nl groups outputs)
    {level : Nat → Nat → Bool} (portrays : (Assignment.exhaustive groups.flatten).Portrays nl level)
    {expected : Vector Int (2 ^ groups.flatten.length)}
    (words : ∀ value ∈ expected.toArray, isWord value = true) :
    nl.check report (.table expected.toArray) = .ok
      { report
        cases := 2 ^ groups.flatten.length
        failures := (List.finRange (2 ^ groups.flatten.length)).filterMap
          fun number : Fin (2 ^ groups.flatten.length) =>
            if numberOn (level number) outputs = expected[number] then none
            else some ⟨(bitFields (groups.map List.length) number).map Int.ofNat,
              expected[number], numberOn (level number) outputs⟩ } := by
  obtain ⟨accepted, wanted⟩ := expectation_table words
  rw [check_eq ordered checkable portrays accepted (wanted _), mismatches_range]

/-- A check against a function is always made. -/
theorem Netlist.exists_check_rule (ordered : nl.Ordered)
    (checkable : report.Checkable nl groups outputs) (rule : List Int → Int) :
    ∃ verdict, nl.check report (.rule rule) = .ok verdict := by
  obtain ⟨level, -, portrays⟩ :=
    exhaustive_portrays checkable.distinct checkable.all_inputs ordered
  exact ⟨_, check_eq ordered checkable portrays rfl rfl⟩

/-- A check of a netlist that requests lead to is sound and complete, for every table of expected
words, one for each number of the bits of its operands.

* The check is made, in as many cases as there are such numbers.
* The operands of a number are its fields, lowest first, and the outputs, run on just these
  operands, make a single number.
* The failures are, in the order of the numbers, the operands, the expected result and the
  actual one of exactly the numbers on which these two differ.
* Any operands that fit are those of exactly one number.
* So the check passes if and only if on all operands the outputs make what the expected
  function, which the table lists, gives. -/
theorem Netlist.check_exhaustive (reachable : nl.Reachable)
    (checkable : report.Checkable nl groups outputs)
    (expected : Vector Int (2 ^ groups.flatten.length))
    (words : ∀ value ∈ expected.toArray, isWord value = true) :
    ∃ (result : Nat → Int) (verdict : Verdict),
      nl.check report (.table expected.toArray) = .ok verdict ∧
      verdict.report = report ∧ verdict.cases = 2 ^ groups.flatten.length ∧
      (∀ number, nl.Yields groups (bitFields (groups.map List.length) number) outputs
        (result number)) ∧
      verdict.failures = (List.finRange (2 ^ groups.flatten.length)).filterMap
        (fun number : Fin (2 ^ groups.flatten.length) =>
          if result number = expected[number] then none
          else some ⟨(bitFields (groups.map List.length) number).map Int.ofNat,
            expected[number], result number⟩) ∧
      (∀ operands, Fit (groups.map List.length) operands →
        ∃! number, number < 2 ^ groups.flatten.length ∧
          bitFields (groups.map List.length) number = operands) ∧
      ∀ wanted : List Nat → Int,
        (∀ number : Fin (2 ^ groups.flatten.length),
          expected[number] = wanted (bitFields (groups.map List.length) number)) →
        (verdict.passed = true ↔ ∀ operands, Fit (groups.map List.length) operands →
          nl.Yields groups operands outputs (wanted operands)) := by
  obtain ⟨level, evaluated, portrays⟩ :=
    exhaustive_portrays checkable.distinct checkable.all_inputs reachable.ordered
  have yields (number : Nat) (result : Int) := yields_bitFields checkable.distinct
    checkable.has_outputs (evaluated number) result
  have unique : ∀ operands, Fit (groups.map List.length) operands →
      ∃! number, number < 2 ^ groups.flatten.length ∧
        bitFields (groups.map List.length) number = operands := by
    intro operands fit
    rw [List.length_flatten]
    exact existsUnique_bitFields fit
  refine ⟨fun number => numberOn (level number) outputs, _,
    check_table reachable.ordered checkable portrays words, rfl, rfl,
    fun number => (yields number _).mpr rfl, rfl, unique, ?_⟩
  intro wanted listed
  simp only [Verdict.passed, List.isEmpty_iff, List.filterMap_eq_nil_iff, List.mem_finRange,
    ite_eq_left_iff, reduceCtorEq, imp_false, not_not, forall_const]
  constructor
  · intro same operands fit
    obtain ⟨number, ⟨below, rfl⟩, _⟩ := unique operands fit
    exact (yields number _).mpr ((listed ⟨number, below⟩).symm.trans (same ⟨number, below⟩).symm)
  · intro computes number
    have made := computes _ (fit_bitFields (groups.map List.length) number)
    exact ((listed number).trans ((yields number _).mp made)).symm

end Check

/-- A number of two bits and one of one bit for the inputs of the shared gate. -/
def sharedGateReport : Report where
  name := "shared"
  inputs := .ofList [("a", [.wire 0, .wire 1]), ("c", [.wire 2])]
  outputs := [.wire 5, .wire 3]

/-- What the shared gate and its copy make of all operands, but for the last case. -/
def sharedGateResults : Vector Int 8 :=
  #v[0, 0, 0, 3, 1, 1, 1, 3]

example : (sharedGate.check sharedGateReport (.table sharedGateResults.toArray)).toOption.map
    (·.failures) = some [⟨[3, 1], 3, 2⟩] := by
  cbv

theorem sharedGateReport_checkable :
    sharedGateReport.Checkable sharedGate [[0, 1], [2]] [5, 3] where
  inputs_eq := rfl
  outputs_eq := rfl
  distinct := by decide
  all_inputs := fun wire input => by
    rcases mem_inputs_sharedGate input with rfl | rfl | rfl <;> decide
  has_outputs := by decide
  few_inputs := by decide
  few_outputs := by decide

theorem Netlist.check_exhaustive_sharedGate :
    sharedGate.Reachable ∧ sharedGateReport.Checkable sharedGate [[0, 1], [2]] [5, 3] ∧
    (∀ value ∈ sharedGateResults.toArray, isWord value = true) ∧
    ∃ (result : Nat → Int) (verdict : Verdict),
      sharedGate.check sharedGateReport (.table sharedGateResults.toArray) = .ok verdict ∧
      (∀ number, sharedGate.Yields [[0, 1], [2]] (bitFields [2, 1] number) [5, 3]
        (result number)) ∧
      verdict.failures = (List.finRange 8).filterMap fun number : Fin 8 =>
        if result number = sharedGateResults[number] then none
        else some ⟨(bitFields [2, 1] number).map Int.ofNat, sharedGateResults[number],
          result number⟩ := by
  have words : ∀ value ∈ sharedGateResults.toArray, isWord value = true := by decide
  obtain ⟨result, verdict, checked, _, _, yields, failures, _, _⟩ :=
    check_exhaustive sharedGate_reachable sharedGateReport_checkable sharedGateResults words
  exact ⟨sharedGate_reachable, sharedGateReport_checkable, words, result, verdict, checked, yields,
    failures⟩

end CarrySave
