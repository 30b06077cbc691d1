/-
Module: CarrySave.Proofs.Signal.CaseByCase
Layer: Proofs
Purpose: Evaluating many cases at once gives what evaluating them one after the other gives.  The
  cases of an assignment are assignments of single bytes; each of them settles the netlist at
  levels of its own, and these are the levels that the batches hold and that the numbers read
  from outputs are made of.
Main exports: Assignment.inCase, Assignment.Supplies.portrays, Netlist.Carries.eq_many,
  Netlist.run_uniform, Netlist.run_batch, Netlist.parallel_eq_caseByCase
-/
import CarrySave.Proofs.Circuit.Reduction
import CarrySave.Proofs.Session.Reachable
import CarrySave.Proofs.Signal.Parallel
import CarrySave.Proofs.Signal.Words

namespace CarrySave

/-! ### The cases of an assignment -/

/-- The assignment of one case.  Single numbers stay as they are; a batch is replaced by its
entry of that case, or by its only one, reduced to a bit.  A batch without an entry of that case
is replaced by zero. -/
def Assignment.inCase (index : Nat) (assignment : Assignment) : Assignment :=
  assignment.mapValues fun
    | .one value => .one value
    | .many values => .one (((Batch.many values).inCase index).getD 0 % 2)

theorem bitOf_emod_two (value : Int) : bitOf (value % 2) 0 = bitOf value 0 := by
  simp [bitOf]

section Cases

variable {assignment : Assignment} {nl : Netlist}

/-- In every case each input has a single byte. -/
theorem Assignment.Supplies.covers (supplies : assignment.Supplies nl) (index : Nat) :
    (assignment.inCase index).Covers nl := by
  intro wire input
  rcases supplies wire input with ⟨value, given, nonneg, le⟩ | ⟨values, given⟩
  · exact ⟨value, by rw [inCase, Roster.get?_mapValues, given]; rfl, nonneg, le⟩
  · refine ⟨_, by rw [inCase, Roster.get?_mapValues, given]; rfl, ?_, ?_⟩
    · exact Int.emod_nonneg _ (by decide)
    · have lt := Int.emod_lt_of_pos (((Batch.many values).inCase index).getD 0)
        (by decide : (0 : Int) < 2)
      omega

/-- The level of an input in a case is the bit of what it is given in that case. -/
theorem Assignment.level_inCase {wire index : Nat} {value : Batch Int} {number : Int}
    (given : assignment.get? wire = some value) (entry : value.inCase index = some number) :
    (assignment.inCase index).level wire = bitOf number 0 := by
  rw [level, inCase, Roster.get?_mapValues, given]
  cases value with
  | one value =>
      cases entry
      rfl
  | many values => simp [entry, bitOf_emod_two]

/-- There are levels at which the netlist settles in every case. -/
theorem Assignment.Supplies.portrays (ordered : nl.Ordered) (supplies : assignment.Supplies nl) :
    ∃ level : Nat → Nat → Bool,
      (∀ index, nl.evaluate (assignment.inCase index) = .ok (signalsOf nl.size (level index))) ∧
      assignment.Portrays nl level := by
  choose level evaluated settled assigned using fun index =>
    Netlist.evaluate_settled ordered (supplies.covers index)
  refine ⟨level, evaluated, settled, ?_⟩
  intro wire input value given index number entry
  rw [assigned index wire input, level_inCase given entry]

end Cases

/-! ### Batches of one size -/

section CommonSize

variable {nl : Netlist} {assignment : Assignment} {level : Nat → Nat → Bool} {count : Nat}

/-- All batches that inputs are given have the same size. -/
def Assignment.Uniform (assignment : Assignment) (nl : Netlist) (count : Nat) : Prop :=
  ∀ wire ∈ nl.inputs, ∀ values, assignment.get? wire = some (.many values) → values.size = count

theorem Netlist.Draws.size_eq {wire size : Nat} (draws : nl.Draws assignment wire size)
    (uniform : assignment.Uniform nl count) : size = count := by
  obtain ⟨source, input, _, values, given, rfl⟩ := draws
  exact uniform source input values given

/-- Batches of one size never clash. -/
theorem Assignment.Uniform.not_clashes (uniform : assignment.Uniform nl count) :
    ¬nl.Clashes assignment := by
  rintro ⟨_, _, m, n, first, second, clash⟩
  exact clash (.inl ((first.size_eq uniform).trans (second.size_eq uniform).symm))

/-- When all batches have the same size, so has what a wire carries. -/
theorem Netlist.Carries.amounts {wire : Nat} {signal : Signal}
    (carries : nl.Carries assignment level wire signal) (uniform : assignment.Uniform nl count) :
    signal.Amounts count fun index => level index wire := by
  cases signal with
  | one bit =>
      refine ⟨by simp, fun index _ => ?_⟩
      rw [Batch.inCase_one, carries.levels index bit rfl]
  | many values =>
      have size : values.size = count := by
        obtain ⟨⟨size, drawn⟩, common⟩ := carries.spans
        have same := drawn.size_eq uniform
        rcases common.1 with single | drawn
        · have only := common.2 size drawn
          omega
        · exact drawn.size_eq uniform
      refine ⟨fun _ given => by cases given; exact size, fun index below => ?_⟩
      have entry := Batch.inCase_of_lt (size ▸ below)
      rw [entry, carries.levels index _ entry]

/-- A wire that draws no batch carries a single bit, its level in all cases. -/
theorem Netlist.Carries.eq_one {wire : Nat} {signal : Signal}
    (carries : nl.Carries assignment level wire signal)
    (single : ∀ size, ¬nl.Draws assignment wire size) :
    ∃ bit, signal = .one bit ∧ ∀ index, bit = level index wire := by
  cases signal with
  | one bit => exact ⟨bit, rfl, fun index => carries.levels index bit rfl⟩
  | many values =>
      obtain ⟨⟨size, draws⟩, _⟩ := carries.spans
      exact absurd draws (single size)

/-- A wire that draws a batch carries one, of the size that the batches have in common. -/
theorem Netlist.Carries.eq_many {wire : Nat} {signal : Signal}
    (carries : nl.Carries assignment level wire signal)
    (batch : ∃ size, nl.Draws assignment wire size) :
    ∃ values, signal = .many values ∧
      Batch.CommonSize (nl.Draws assignment wire) values.size ∧
      ∀ index (below : index < values.size), values[index] = level index wire := by
  cases signal with
  | one bit =>
      obtain ⟨size, draws⟩ := batch
      exact absurd draws (carries.spans size)
  | many values =>
      refine ⟨values, rfl, carries.spans.2, fun index below => ?_⟩
      exact carries.levels index _ (Batch.inCase_of_lt below)

theorem Netlist.Carries.isSingle_eq_false {wire : Nat} {signal : Signal}
    (carries : nl.Carries assignment level wire signal)
    (batch : ∃ size, nl.Draws assignment wire size) : signal.isSingle = false := by
  obtain ⟨values, rfl, _⟩ := carries.eq_many batch
  rfl

variable {outputs : List Nat}

/-- When all batches have the same size, evaluation succeeds and reading outputs reads their
signals, each of which has that many cases. -/
theorem Netlist.readOutputs_uniform (ordered : nl.Ordered) (supplies : assignment.Supplies nl)
    (portrays : assignment.Portrays nl level) (uniform : assignment.Uniform nl count)
    (has : nl.Has outputs) :
    ∃ (signals : Array Signal) (signal : Nat → Signal), nl.evaluate assignment = .ok signals ∧
      readOutputs signals (outputs.map .wire) =
        bitsToInt (outputs.map fun output => (signal output).number) ∧
      ∀ output ∈ outputs, nl.Carries assignment level output (signal output) := by
  rcases evaluate_parallel ordered supplies portrays with
    ⟨_, signals, evaluated, sized, known⟩ | ⟨clashes, _⟩
  · refine ⟨signals, signalOn signals, evaluated, ?_, ?_⟩
    · exact readOutputs_wires fun output member => sized ▸ has output member
    · intro output member
      obtain ⟨signal, found, carries⟩ := known output (has output member)
      rwa [signalOn, found]
  · exact absurd clashes uniform.not_clashes

/-- Up to sixty-three outputs are read as the number that they make in each case. -/
theorem Netlist.run_uniform (ordered : nl.Ordered) (supplies : assignment.Supplies nl)
    (portrays : assignment.Portrays nl level) (uniform : assignment.Uniform nl count)
    (has : nl.Has outputs) (few : outputs.length ≤ Error.maxBatchBits) :
    ∃ signals result, nl.evaluate assignment = .ok signals ∧
      readOutputs signals (outputs.map .wire) = .ok result ∧
      result.Amounts count (fun index => numberOn (level index) outputs) ∧
      ∀ output ∈ outputs, (∃ size, nl.Draws assignment output size) → result.isSingle = false := by
  obtain ⟨signals, signal, evaluated, read, carries⟩ :=
    readOutputs_uniform ordered supplies portrays uniform has
  obtain ⟨result, made, amounts, single⟩ :=
    bitsToInt_amounts (fun output member => (carries output member).amounts uniform) few
  refine ⟨signals, result, evaluated, read.trans made, amounts, ?_⟩
  intro output member batch
  rw [single, List.all_eq_false]
  exact ⟨output, member, by simp [(carries output member).isSingle_eq_false batch]⟩

/-- When one of up to sixty-three outputs draws a batch, they are read as a batch. -/
theorem Netlist.run_batch (ordered : nl.Ordered) (supplies : assignment.Supplies nl)
    (portrays : assignment.Portrays nl level) (uniform : assignment.Uniform nl count)
    (has : nl.Has outputs) (batch : ∃ output ∈ outputs, ∃ size, nl.Draws assignment output size)
    (few : outputs.length ≤ Error.maxBatchBits) :
    ∃ numbers, nl.run assignment (outputs.map .wire) = .ok (.many numbers) ∧
      numbers.size = count ∧ ∀ index (below : index < numbers.size),
        numbers[index] = numberOn (level index) outputs := by
  obtain ⟨output, member, draws⟩ := batch
  obtain ⟨signals, result, evaluated, read, amounts, notSingle⟩ :=
    run_uniform ordered supplies portrays uniform has few
  cases result with
  | one number => cases notSingle output member draws
  | many numbers =>
      have sized := amounts.size_eq numbers rfl
      refine ⟨numbers, ?_, sized, fun index below => ?_⟩
      · simp only [run, evaluated, bind, Except.bind, read]
      · have entry := amounts.inCase_eq index (sized ▸ below)
        rw [Batch.inCase_of_lt below] at entry
        exact Option.some.inj entry

/-- When one of more than sixty-three outputs draws a batch, they are not read. -/
theorem Netlist.run_tooManyBits (ordered : nl.Ordered) (supplies : assignment.Supplies nl)
    (portrays : assignment.Portrays nl level) (uniform : assignment.Uniform nl count)
    (has : nl.Has outputs) (batch : ∃ output ∈ outputs, ∃ size, nl.Draws assignment output size)
    (many : Error.maxBatchBits < outputs.length) :
    nl.run assignment (outputs.map .wire) = .error (.tooManyBits outputs.length) := by
  obtain ⟨output, member, draws⟩ := batch
  obtain ⟨signals, signal, evaluated, read, carries⟩ :=
    readOutputs_uniform ordered supplies portrays uniform has
  have notSingle := (carries output member).isSingle_eq_false draws
  simp only [run, evaluated, bind, Except.bind, read, bitsToInt_tooManyBits member notSingle many]

end CommonSize

/-- Evaluating many cases at once is evaluating them case by case.  Let every input of a netlist
that requests lead to be given a single byte or a batch of numbers.

* The netlist settles in every case, at some levels.
* Evaluation is refused because of unequal batches exactly when the cone of some logic gate has
  two inputs whose batches have sizes that are not compatible.
* Otherwise it succeeds.  A wire carries a single bit if no input in its cone is given a batch,
  and that is its level in all cases; else it carries a batch of the size that the batches in
  its cone have in common, and the entries are its levels in the cases of their positions.
* When all batches have one size and an output draws a batch, up to sixty-three outputs are read
  as a batch of that size whose entries are the numbers that are read case by case; more outputs
  are refused. -/
theorem Netlist.parallel_eq_caseByCase {nl : Netlist} {assignment : Assignment}
    (reachable : nl.Reachable) (supplies : assignment.Supplies nl) :
    ∃ level : Nat → Nat → Bool,
      (∀ index, nl.evaluate (assignment.inCase index) = .ok (signalsOf nl.size (level index))) ∧
      ((∃ m n, nl.evaluate assignment = .error (.unequalBatches m n)) ↔ nl.Clashes assignment) ∧
      (¬nl.Clashes assignment → ∃ signals, nl.evaluate assignment = .ok signals ∧
        signals.size = nl.size ∧ ∀ wire < nl.size,
          ((∀ size, ¬nl.Draws assignment wire size) →
            ∃ bit, signals[wire]? = some (.one bit) ∧ ∀ index, bit = level index wire) ∧
          ((∃ size, nl.Draws assignment wire size) →
            ∃ values, signals[wire]? = some (.many values) ∧
              Batch.CommonSize (nl.Draws assignment wire) values.size ∧
              ∀ index (below : index < values.size), values[index] = level index wire)) ∧
      ∀ (count : Nat) (outputs : List Nat), assignment.Uniform nl count → nl.Has outputs →
        (∃ output ∈ outputs, ∃ size, nl.Draws assignment output size) →
          (outputs.length ≤ 63 →
            ∃ numbers, nl.run assignment (outputs.map .wire) = .ok (.many numbers) ∧
              numbers.size = count ∧ ∀ index (below : index < numbers.size),
                nl.run (assignment.inCase index) (outputs.map .wire) =
                  .ok (.one numbers[index])) ∧
          (63 < outputs.length →
            nl.run assignment (outputs.map .wire) = .error (.tooManyBits outputs.length)) := by
  have ordered := reachable.ordered
  obtain ⟨level, settles, portrays⟩ := supplies.portrays ordered
  have evaluation := evaluate_parallel ordered supplies portrays
  refine ⟨level, settles, ?refused, ?signals, ?numbers⟩
  case refused =>
    rcases evaluation with ⟨peaceful, signals, evaluated, _⟩ | ⟨clashes, refused⟩
    · simp [evaluated, peaceful]
    · exact iff_of_true refused clashes
  case signals =>
    intro peaceful
    obtain ⟨_, signals, evaluated, sized, known⟩ :=
      evaluation.resolve_right fun clash => peaceful clash.1
    refine ⟨signals, evaluated, sized, fun wire below => ?_⟩
    obtain ⟨signal, found, carries⟩ := known wire below
    constructor
    · intro single
      obtain ⟨bit, rfl, levels⟩ := carries.eq_one single
      exact ⟨bit, found, levels⟩
    · intro batch
      obtain ⟨values, rfl, common, levels⟩ := carries.eq_many batch
      exact ⟨values, found, common, levels⟩
  case numbers =>
    intro count outputs uniform has batch
    constructor
    · intro few
      obtain ⟨numbers, read, sized, entries⟩ :=
        run_batch ordered supplies portrays uniform has batch few
      refine ⟨numbers, read, sized, fun index below => ?_⟩
      rw [run_eq_numberOn (settles index) has, entries index below]
    · exact run_tooManyBits ordered supplies portrays uniform has batch

/-- Three inputs, a gate of two of them, a copy of it, and a gate of the copy and the third. -/
def sharedGate : Netlist where
  name := "shared"
  gates := #[.input "x", .input "y", .input "z", .logic .and 0 1, .buffer 3, .logic .xor 4 2]

/-- Two cases for the first and the last of three inputs, and one byte for the other. -/
def twoCases : Assignment :=
  .ofList [(0, .many #[1, 6]), (1, .one 255), (2, .many #[-3, 0])]

theorem sharedGate_reachable : sharedGate.Reachable :=
  ⟨"shared", [.input (.text "x"), .input (.text "y"), .input (.text "z"),
    .gate (.op .and) (.wire 0) (.wire 1), .buffer (.wire 3),
    .append (.op .xor) [.wire 4, .wire 2]], rfl⟩

theorem mem_inputs_sharedGate {wire : Nat} (input : wire ∈ sharedGate.inputs) :
    wire = 0 ∨ wire = 1 ∨ wire = 2 := by
  have listed : sharedGate.inputs = [0, 1, 2] := by decide
  simpa [listed] using input

theorem twoCases_supplies : twoCases.Supplies sharedGate := by
  intro wire input
  rcases mem_inputs_sharedGate input with rfl | rfl | rfl
  · exact .inr ⟨_, rfl⟩
  · exact .inl ⟨255, rfl, by decide, by decide⟩
  · exact .inr ⟨_, rfl⟩

theorem Netlist.parallel_eq_caseByCase_sharedGate :
    sharedGate.Reachable ∧ twoCases.Supplies sharedGate ∧ twoCases.Uniform sharedGate 2 ∧
    sharedGate.Draws twoCases 5 2 ∧ ¬sharedGate.Clashes twoCases ∧
    ∃ numbers, sharedGate.run twoCases ([3, 5].map .wire) = .ok (.many numbers) ∧
      numbers.size = 2 ∧ ∀ index (below : index < numbers.size),
        sharedGate.run (twoCases.inCase index) ([3, 5].map .wire) =
          .ok (.one numbers[index]) := by
  have uniform : twoCases.Uniform sharedGate 2 := by
    intro wire input values given
    rcases mem_inputs_sharedGate input with rfl | rfl | rfl <;> cases given <;> rfl
  have draws : sharedGate.Draws twoCases 5 2 := by
    have cone : sharedGate.Cone 5 2 := .through rfl (by decide) (.self 2)
    exact ⟨2, by decide, cone, _, rfl, rfl⟩
  obtain ⟨_, _, _, _, numbers⟩ := parallel_eq_caseByCase sharedGate_reachable twoCases_supplies
  have few := (numbers 2 [3, 5] uniform (by decide) ⟨5, by decide, 2, draws⟩).1 (by decide)
  exact ⟨sharedGate_reachable, twoCases_supplies, uniform, draws, uniform.not_clashes, few⟩

end CarrySave
