/-
Module: CarrySave.Proofs.Signal.Parallel
Layer: Proofs
Purpose: Evaluation of many cases at once.  Inputs may be given single bytes and batches of any
  sizes.  What a wire carries depends on the inputs in its cone only: it is a single bit if none
  of them is given a batch, and else a batch of the size that their batches have in common, with
  the level of the wire in each case.  Evaluation fails exactly when the cone of some logic gate
  has two batches of sizes that are not compatible.
Main exports: Netlist.Draws, Netlist.Clashes, Assignment.Supplies, Assignment.Portrays,
  Netlist.Carries, Netlist.evaluate_parallel
-/
import CarrySave.Proofs.Netlist.Cone
import CarrySave.Proofs.Roster
import CarrySave.Proofs.Signal.Batch
import CarrySave.Proofs.Signal.Numbers

namespace CarrySave

/-! ### Batches in cones -/

namespace Netlist

/-- An input in the cone of a wire is given a batch of a size. -/
def Draws (nl : Netlist) (assignment : Assignment) (wire size : Nat) : Prop :=
  ∃ source ∈ nl.inputs, nl.Cone wire source ∧
    ∃ values, assignment.get? source = some (.many values) ∧ values.size = size

/-- The cone of a logic gate has batches of sizes that are not compatible. -/
def ClashesAt (nl : Netlist) (assignment : Assignment) (wire : Nat) : Prop :=
  (∃ op a b, nl.gates[wire]? = some (.logic op a b)) ∧
    ∃ m n, nl.Draws assignment wire m ∧ nl.Draws assignment wire n ∧ ¬Compatible m n

/-- The cone of some logic gate has batches of sizes that are not compatible. -/
def Clashes (nl : Netlist) (assignment : Assignment) : Prop :=
  ∃ wire, nl.ClashesAt assignment wire

variable {nl : Netlist} {assignment : Assignment} {gate : Gate} {wire size : Nat}

theorem mem_inputs_push_of_lt (below : wire < nl.size) :
    wire ∈ (nl.push gate).inputs ↔ wire ∈ nl.inputs := by
  rw [mem_inputs_iff, mem_inputs_iff, getElem?_push_of_lt below]

/-- One more gate does not change what batches earlier wires draw. -/
theorem draws_push_of_lt (ordered : nl.Ordered) (below : wire < nl.size) :
    (nl.push gate).Draws assignment wire size ↔ nl.Draws assignment wire size := by
  unfold Draws
  refine exists_congr fun source => ?_
  rw [cone_push_of_lt ordered below]
  constructor
  · rintro ⟨input, cone, given⟩
    have earlier := Nat.lt_of_le_of_lt (cone.le ordered) below
    exact ⟨(mem_inputs_push_of_lt earlier).mp input, cone, given⟩
  · rintro ⟨input, cone, given⟩
    have earlier := Nat.lt_of_le_of_lt (cone.le ordered) below
    exact ⟨(mem_inputs_push_of_lt earlier).mpr input, cone, given⟩

/-- The wire of one more gate draws the batch that it is given as an input and the batches that
its operands draw. -/
theorem draws_push_size_iff (ordered : (nl.push gate).Ordered) :
    (nl.push gate).Draws assignment nl.size size ↔
      (nl.size ∈ (nl.push gate).inputs ∧
        ∃ values, assignment.get? nl.size = some (.many values) ∧ values.size = size) ∨
      ∃ operand ∈ gate.operands, nl.Draws assignment operand size := by
  obtain ⟨orderedBefore, below⟩ := ordered_push_iff.mp ordered
  constructor
  · rintro ⟨source, input, cone, given⟩
    rcases (cone_push_size_iff ordered).mp cone with rfl | ⟨operand, member, rest⟩
    · exact .inl ⟨input, given⟩
    · have earlier := Nat.lt_of_le_of_lt (rest.le orderedBefore) (below operand member)
      exact .inr ⟨operand, member, source, (mem_inputs_push_of_lt earlier).mp input, rest, given⟩
  · rintro (⟨input, given⟩ | ⟨operand, member, source, input, rest, given⟩)
    · exact ⟨nl.size, input, .self _, given⟩
    · have earlier := Nat.lt_of_le_of_lt (rest.le orderedBefore) (below operand member)
      exact ⟨source, (mem_inputs_push_of_lt earlier).mpr input,
        (cone_push_size_iff ordered).mpr (.inr ⟨operand, member, rest⟩), given⟩

/-- One more gate can only clash at its own wire. -/
theorem clashes_push_iff (ordered : nl.Ordered) :
    (nl.push gate).Clashes assignment ↔
      nl.Clashes assignment ∨ (nl.push gate).ClashesAt assignment nl.size := by
  have earlier : ∀ wire < nl.size,
      ((nl.push gate).ClashesAt assignment wire ↔ nl.ClashesAt assignment wire) := by
    intro wire below
    simp only [ClashesAt, getElem?_push_of_lt below, draws_push_of_lt ordered below]
  constructor
  · rintro ⟨wire, clash⟩
    obtain ⟨op, a, b, found⟩ := clash.1
    rcases getElem?_push_cases found with before | ⟨rfl, -⟩
    · exact .inl ⟨wire, (earlier wire (lt_size_of_getElem? before)).mp clash⟩
    · exact .inr clash
  · rintro (⟨wire, clash⟩ | clash)
    · obtain ⟨op, a, b, found⟩ := clash.1
      exact ⟨wire, (earlier wire (lt_size_of_getElem? found)).mpr clash⟩
    · exact ⟨nl.size, clash⟩

end Netlist

/-! ### Assignments of many cases -/

/-- Every input is given a single byte or a batch. -/
def Assignment.Supplies (assignment : Assignment) (nl : Netlist) : Prop :=
  ∀ wire ∈ nl.inputs,
    (∃ value : Int, assignment.get? wire = some (.one value) ∧ 0 ≤ value ∧ value ≤ 255) ∨
      ∃ values, assignment.get? wire = some (.many values)

/-- In every case the levels are settled and give the inputs the bits of that case. -/
structure Assignment.Portrays (assignment : Assignment) (nl : Netlist)
    (level : Nat → Nat → Bool) : Prop where
  settled : ∀ index, nl.Settled (level index)
  given : ∀ wire ∈ nl.inputs, ∀ value, assignment.get? wire = some value →
    ∀ index number, value.inCase index = some number → level index wire = bitOf number 0

/-- A signal is what a wire should carry: it has the size that the batches in the cone of the
wire have in common, and in each case the level of the wire. -/
structure Netlist.Carries (nl : Netlist) (assignment : Assignment) (level : Nat → Nat → Bool)
    (wire : Nat) (signal : Signal) : Prop where
  spans : signal.Spans (nl.Draws assignment wire)
  levels : ∀ index bit, signal.inCase index = some bit → bit = level index wire

section Push

variable {nl : Netlist} {assignment : Assignment} {gate : Gate} {level : Nat → Nat → Bool}

theorem Assignment.Supplies.of_push (supplies : assignment.Supplies (nl.push gate)) :
    assignment.Supplies nl := by
  intro wire member
  exact supplies wire (by simp [Netlist.inputs_push, member])

theorem Assignment.Portrays.of_push (portrays : assignment.Portrays (nl.push gate) level) :
    assignment.Portrays nl level where
  settled := fun index => (Netlist.settled_push_iff.mp (portrays.settled index)).1
  given := fun wire member => portrays.given wire (by simp [Netlist.inputs_push, member])

theorem Netlist.Carries.push {wire : Nat} {signal : Signal} (ordered : nl.Ordered)
    (below : wire < nl.size) (carries : nl.Carries assignment level wire signal) :
    (nl.push gate).Carries assignment level wire signal where
  spans := (Batch.spans_congr fun _ => draws_push_of_lt ordered below).mpr carries.spans
  levels := carries.levels

end Push

/-! ### Evaluation -/

/-- What an input is supplied with becomes its signal. -/
theorem inputSignal_supplied {assignment : Assignment} {nl : Netlist}
    (supplies : assignment.Supplies nl) {wire : Nat} (input : wire ∈ nl.inputs) :
    ∃ value, assignment.get? wire = some value ∧
      inputSignal value = .ok (value.map (bitOf · 0)) := by
  rcases supplies wire input with ⟨value, given, nonneg, le⟩ | ⟨values, given⟩
  · exact ⟨_, given, inputSignal_byte nonneg le⟩
  · exact ⟨_, given, rfl⟩

section Gates

variable {assignment : Assignment} {nl : Netlist} {level : Nat → Nat → Bool}
  {signals : Array Signal}

/-- An input carries what it is given. -/
theorem input_carries {label : String} (ordered : (nl.push (.input label)).Ordered)
    (supplies : assignment.Supplies (nl.push (.input label)))
    (portrays : assignment.Portrays (nl.push (.input label)) level) (sized : signals.size = nl.size) :
    ∃ signal, gateSignal assignment signals (.input label) = .ok signal ∧
      (nl.push (.input label)).Carries assignment level nl.size signal := by
  have input : nl.size ∈ (nl.push (.input label)).inputs := by simp [Netlist.inputs_push]
  obtain ⟨value, given, signal⟩ := inputSignal_supplied supplies input
  refine ⟨value.map (bitOf · 0), by simp [gateSignal, sized, given, signal], ?_, ?_⟩
  · have drawn : ∀ size, (nl.push (.input label)).Draws assignment nl.size size ↔
        ∃ values, value = .many values ∧ values.size = size := by
      intro size
      simp [Netlist.draws_push_size_iff ordered, input, given, Gate.operands]
    rw [Batch.spans_congr drawn]
    cases value with
    | one value => simp [Batch.map, Batch.Spans]
    | many values => simp [Batch.map, Batch.Spans, Batch.CommonSize]
  · intro index bit entry
    rw [Batch.inCase_map, Option.map_eq_some_iff] at entry
    obtain ⟨number, entry, rfl⟩ := entry
    exact (portrays.given nl.size input value given index number entry).symm

variable (known : ∀ wire < nl.size, ∃ signal, signals[wire]? = some signal ∧
  nl.Carries assignment level wire signal)

include known

/-- A buffer carries what its source carries. -/
theorem buffer_carries {source : Nat} (ordered : (nl.push (.buffer source)).Ordered)
    (portrays : assignment.Portrays (nl.push (.buffer source)) level) :
    ∃ signal, gateSignal assignment signals (.buffer source) = .ok signal ∧
      (nl.push (.buffer source)).Carries assignment level nl.size signal := by
  have below := (Netlist.ordered_push_iff.mp ordered).2 source (by simp [Gate.operands])
  obtain ⟨signal, found, carries⟩ := known source below
  refine ⟨signal, by simp [gateSignal, signalAt, found], ?_, ?_⟩
  · have drawn : ∀ size, (nl.push (.buffer source)).Draws assignment nl.size size ↔
        nl.Draws assignment source size := by
      intro size
      simp [Netlist.draws_push_size_iff ordered, Netlist.mem_inputs_iff, Gate.operands]
    exact (Batch.spans_congr drawn).mpr carries.spans
  · intro index bit entry
    have settled := (Netlist.settled_push_iff.mp (portrays.settled index)).2
    rw [Gate.Settled] at settled
    rw [settled]
    exact carries.levels index bit entry

/-- A logic gate carries its operands combined, or it clashes. -/
theorem logic_carries {op : Op} {a b : Nat} (ordered : (nl.push (.logic op a b)).Ordered)
    (portrays : assignment.Portrays (nl.push (.logic op a b)) level) :
    (¬(nl.push (.logic op a b)).ClashesAt assignment nl.size ∧
        ∃ signal, gateSignal assignment signals (.logic op a b) = .ok signal ∧
          (nl.push (.logic op a b)).Carries assignment level nl.size signal) ∨
      ((nl.push (.logic op a b)).ClashesAt assignment nl.size ∧
        ∃ m n, gateSignal assignment signals (.logic op a b) = .error (.unequalBatches m n)) := by
  have operandsBelow := (Netlist.ordered_push_iff.mp ordered).2
  obtain ⟨x, foundX, carriesX⟩ := known a (operandsBelow a (by simp [Gate.operands]))
  obtain ⟨y, foundY, carriesY⟩ := known b (operandsBelow b (by simp [Gate.operands]))
  have combined : gateSignal assignment signals (.logic op a b) = Batch.zipWith op.apply x y := by
    simp [gateSignal, signalAt, foundX, foundY, bind, Except.bind]
  have drawn : ∀ size, (nl.push (.logic op a b)).Draws assignment nl.size size ↔
      nl.Draws assignment a size ∨ nl.Draws assignment b size := by
    intro size
    simp [Netlist.draws_push_size_iff ordered, Netlist.mem_inputs_iff, Gate.operands]
  rw [combined]
  rcases Batch.zipWith_of_spans op.apply carriesX.spans carriesY.spans with
    ⟨z, zipped, spans, cases⟩ | ⟨m, n, left, right, clash, refused⟩
  · have spans := (Batch.spans_congr drawn).mpr spans
    refine .inl ⟨?_, z, zipped, spans, ?_⟩
    · rintro ⟨_, m, n, first, second, clash⟩
      exact clash (spans.compatible first second)
    · intro index bit entry
      rw [cases, Option.map₂_eq_some_iff] at entry
      obtain ⟨p, q, entryX, entryY, rfl⟩ := entry
      have settled := (Netlist.settled_push_iff.mp (portrays.settled index)).2
      rw [Gate.Settled] at settled
      rw [settled, carriesX.levels index p entryX, carriesY.levels index q entryY]
  · refine .inr ⟨⟨⟨op, a, b, Netlist.getElem?_push_size nl _⟩, m, n, ?_, ?_, clash⟩, m, n, refused⟩
    · exact (drawn m).mpr (.inl left)
    · exact (drawn n).mpr (.inr right)

end Gates

/-- Evaluating many cases at once either succeeds, and every wire carries what it should, or it
is refused because of the sizes of two batches.  The latter happens exactly when some logic gate
clashes. -/
theorem Netlist.evaluate_parallel {nl : Netlist} {assignment : Assignment}
    {level : Nat → Nat → Bool} (ordered : nl.Ordered) (supplies : assignment.Supplies nl)
    (portrays : assignment.Portrays nl level) :
    (¬nl.Clashes assignment ∧ ∃ signals, nl.evaluate assignment = .ok signals ∧
        signals.size = nl.size ∧ ∀ wire < nl.size, ∃ signal, signals[wire]? = some signal ∧
          nl.Carries assignment level wire signal) ∨
      (nl.Clashes assignment ∧
        ∃ m n, nl.evaluate assignment = .error (.unequalBatches m n)) := by
  induction nl using Netlist.push_induction with
  | empty name =>
      refine .inl ⟨?_, #[], rfl, rfl, fun wire below => absurd below (Nat.not_lt_zero wire)⟩
      rintro ⟨wire, ⟨op, a, b, found⟩, _⟩
      simp at found
  | push nl gate inductionHypothesis =>
      obtain ⟨orderedBefore, below⟩ := ordered_push_iff.mp ordered
      rw [clashes_push_iff orderedBefore, evaluate_push]
      rcases inductionHypothesis orderedBefore supplies.of_push portrays.of_push with
        ⟨peaceful, signals, evaluated, sized, known⟩ | ⟨clashes, m, n, refused⟩
      · have last : (¬(nl.push gate).ClashesAt assignment nl.size ∧
              ∃ signal, gateSignal assignment signals gate = .ok signal ∧
                (nl.push gate).Carries assignment level nl.size signal) ∨
            ((nl.push gate).ClashesAt assignment nl.size ∧
              ∃ m n, gateSignal assignment signals gate = .error (.unequalBatches m n)) := by
          cases gate with
          | input label =>
              refine .inl ⟨?_, input_carries ordered supplies portrays sized⟩
              simp [ClashesAt]
          | buffer source =>
              refine .inl ⟨?_, buffer_carries known ordered portrays⟩
              simp [ClashesAt]
          | logic op a b => exact logic_carries known ordered portrays
        rw [evaluated]
        rcases last with ⟨peacefulLast, signal, computed, carries⟩ | ⟨clashes, m, n, refused⟩
        · refine .inl ⟨not_or.mpr ⟨peaceful, peacefulLast⟩, signals.push signal, ?_, ?_, ?_⟩
          · simp [bind, Except.bind, extendSignals, computed, pure, Except.pure]
          · simp [sized]
          · intro wire inside
            rw [size_push] at inside
            rcases Nat.lt_succ_iff_lt_or_eq.mp inside with earlier | rfl
            · obtain ⟨signal, found, carries⟩ := known wire earlier
              refine ⟨signal, ?_, carries.push orderedBefore earlier⟩
              rw [Array.getElem?_push, if_neg (by omega), found]
            · exact ⟨signal, by simp [← sized], carries⟩
        · refine .inr ⟨.inr clashes, m, n, ?_⟩
          simp [bind, Except.bind, extendSignals, refused]
      · refine .inr ⟨.inl clashes, m, n, ?_⟩
        rw [refused]
        rfl

end CarrySave
