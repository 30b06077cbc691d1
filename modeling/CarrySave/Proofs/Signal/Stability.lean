/-
Module: CarrySave.Proofs.Signal.Stability
Layer: Proofs
Purpose: When single-case evaluation succeeds, and that what it yields stays.  Of an assignment
  only the entries of inputs are ever read.  If these are single bytes, evaluation fails only for
  an input without an entry, and then it names the lowest one.  A netlist that has grown evaluates
  to what it evaluated to before, with the signals of the new wires after it.
Main exports: Netlist.evaluate_push_eq_ok_iff, Netlist.size_of_evaluate,
  Netlist.Grows.evaluate_take, Netlist.evaluate_congr, Assignment.InBytes, Assignment.FirstGap,
  Netlist.covers_or_refused, Session.evaluation_stable
-/
import CarrySave.Proofs.Session.Reachable
import CarrySave.Proofs.Signal.CaseByCase

namespace CarrySave

/-! ### One more gate -/

namespace Netlist

variable {nl : Netlist} {assignment : Assignment}

/-- A netlist with one more gate evaluates when it did before and the gate has a signal, which comes
last. -/
theorem evaluate_push_eq_ok_iff {gate : Gate} {signals : Array Signal} :
    (nl.push gate).evaluate assignment = .ok signals ↔
      ∃ before signal, nl.evaluate assignment = .ok before ∧
        gateSignal assignment before gate = .ok signal ∧ signals = before.push signal := by
  rw [evaluate_push]
  cases evaluated : nl.evaluate assignment with
  | error error => simp [bind, Except.bind]
  | ok before =>
      cases computed : gateSignal assignment before gate with
      | error error => simp [bind, Except.bind, extendSignals, computed]
      | ok signal => simp [bind, Except.bind, extendSignals, computed, pure, Except.pure, eq_comm]

/-- Evaluation yields one signal for each wire. -/
theorem size_of_evaluate {signals : Array Signal}
    (evaluated : nl.evaluate assignment = .ok signals) : signals.size = nl.size := by
  induction nl using push_induction generalizing signals with
  | empty name =>
      cases evaluated
      rfl
  | push nl gate inductionHypothesis =>
      obtain ⟨before, signal, earlier, -, rfl⟩ := evaluate_push_eq_ok_iff.mp evaluated
      rw [Array.size_push, inductionHypothesis earlier, size_push]

/-- What a netlist evaluates to after it has grown begins with what it evaluated to before. -/
theorem Grows.evaluate_take {start grown : Netlist} (growth : start.Grows grown)
    {signals : Array Signal} (evaluated : grown.evaluate assignment = .ok signals) :
    start.evaluate assignment = .ok (signals.take start.size) := by
  induction growth generalizing signals with
  | refl =>
      rw [evaluated, ← size_of_evaluate evaluated, Array.take_eq_extract, Array.extract_size]
  | @push grown gate growth _ inductionHypothesis =>
      obtain ⟨before, signal, earlier, -, rfl⟩ := evaluate_push_eq_ok_iff.mp evaluated
      have inside : start.size ≤ before.size := by
        rw [size_of_evaluate earlier]
        exact growth.size_le
      rw [inductionHypothesis earlier]
      congr 1
      apply Array.ext'
      simp [inside]

/-- Only the entries of inputs are read. -/
theorem evaluate_congr {other : Assignment}
    (same : ∀ wire ∈ nl.inputs, assignment.get? wire = other.get? wire) :
    nl.evaluate assignment = nl.evaluate other := by
  induction nl using push_induction with
  | empty name => rfl
  | push nl gate inductionHypothesis =>
      have before := inductionHypothesis fun wire member =>
        same wire (by simp [inputs_push, member])
      rw [evaluate_push, evaluate_push, ← before]
      cases evaluated : nl.evaluate assignment with
      | error error => rfl
      | ok signals =>
          have sized := size_of_evaluate evaluated
          have sameSignal : gateSignal assignment signals gate = gateSignal other signals gate := by
            cases gate with
            | input label =>
                have entry := same nl.size (by simp [inputs_push])
                simp only [gateSignal, sized, entry]
            | buffer source => rfl
            | logic op a b => rfl
          simp only [bind, Except.bind, extendSignals, sameSignal]

end Netlist

/-! ### Inputs without a value -/

/-- Inputs that are given anything are given single bytes. -/
def Assignment.InBytes (assignment : Assignment) (nl : Netlist) : Prop :=
  ∀ wire ∈ nl.inputs, ∀ value, assignment.get? wire = some value →
    ∃ byte : Int, value = .one byte ∧ 0 ≤ byte ∧ byte ≤ 255

/-- The wire is an input of the given label without a value, and all inputs before it have one. -/
structure Assignment.FirstGap (assignment : Assignment) (nl : Netlist) (label : String)
    (wire : Nat) : Prop where
  found : nl.gates[wire]? = some (.input label)
  missing : assignment.get? wire = none
  first : ∀ earlier ∈ nl.inputs, earlier < wire → assignment.get? earlier ≠ none

section Gaps

variable {nl : Netlist} {assignment : Assignment}

theorem Assignment.InBytes.of_push {gate : Gate} (bytes : assignment.InBytes (nl.push gate)) :
    assignment.InBytes nl := by
  intro wire member
  exact bytes wire (by simp [Netlist.inputs_push, member])

theorem Assignment.FirstGap.push {label : String} {wire : Nat}
    (gap : assignment.FirstGap nl label wire) (gate : Gate) :
    assignment.FirstGap (nl.push gate) label wire := by
  have below := Netlist.lt_size_of_getElem? gap.found
  refine ⟨?_, gap.missing, ?_⟩
  · rw [Netlist.getElem?_push_of_lt below, gap.found]
  · intro earlier member less
    have before := (Netlist.mem_inputs_push_of_lt (Nat.lt_trans less below)).mp member
    exact gap.first earlier before less

/-- When all earlier inputs are given bytes, either one more gate leaves it at that, or it is the
first input that is given nothing. -/
theorem Assignment.InBytes.covers_of_push {gate : Gate} (bytes : assignment.InBytes (nl.push gate))
    (covers : assignment.Covers nl) :
    assignment.Covers (nl.push gate) ∨
      ∃ label, gate = .input label ∧ assignment.FirstGap (nl.push gate) label nl.size := by
  cases gate with
  | buffer source =>
      left
      intro wire member
      exact covers wire (by simpa [Netlist.inputs_push] using member)
  | logic op a b =>
      left
      intro wire member
      exact covers wire (by simpa [Netlist.inputs_push] using member)
  | input label =>
      cases last : assignment.get? nl.size with
      | some value =>
          left
          intro wire member
          obtain ⟨byte, rfl, range⟩ := bytes nl.size (by simp [Netlist.inputs_push]) value last
          rw [Netlist.inputs_push] at member
          rcases List.mem_append.mp member with earlier | here
          · exact covers wire earlier
          · obtain rfl := List.mem_singleton.mp here
            exact ⟨byte, last, range⟩
      | none =>
          refine .inr ⟨label, rfl, by simp, last, ?_⟩
          intro earlier member less
          have before := (Netlist.mem_inputs_push_of_lt less).mp member
          obtain ⟨value, found, -⟩ := covers earlier before
          simp [found]

/-- If inputs are given bytes at most, then either all of them are, or evaluation is refused because
of the first one that is not. -/
theorem Netlist.covers_or_refused (ordered : nl.Ordered) (bytes : assignment.InBytes nl) :
    assignment.Covers nl ∨
      ∃ label wire, assignment.FirstGap nl label wire ∧
        nl.evaluate assignment = .error (.unassigned label wire) := by
  induction nl using push_induction with
  | empty name =>
      left
      intro wire member
      simp [mem_inputs_iff] at member
  | push nl gate inductionHypothesis =>
      obtain ⟨orderedBefore, -⟩ := ordered_push_iff.mp ordered
      rcases inductionHypothesis orderedBefore bytes.of_push with
        covers | ⟨label, wire, gap, refused⟩
      · rcases bytes.covers_of_push covers with coversAll | ⟨label, rfl, gap⟩
        · exact .inl coversAll
        · obtain ⟨level, evaluated, -⟩ := evaluate_settled orderedBefore covers
          refine .inr ⟨label, nl.size, gap, ?_⟩
          rw [evaluate_push, evaluated]
          simp [bind, Except.bind, extendSignals, gateSignal, gap.missing]
      · refine .inr ⟨label, wire, gap.push gate, ?_⟩
        rw [evaluate_push, refused]
        rfl

end Gaps

/-! ### Evaluation along a session -/

/-- What the signal of a gate should be: of an input the lowest bit of its number, of a buffer the
bit of its source, of a logic gate what its operator makes of the bits of its operands. -/
def Gate.Explains (assignment : Assignment) (signals : Array Signal) (wire : Nat) (bit : Bool) :
    Gate → Prop
  | .input _ => ∃ value : Int, assignment.get? wire = some (.one value) ∧ bitValue bit = value % 2
  | .buffer source => signals[source]? = some (.one bit)
  | .logic op a b => ∃ x y, signals[a]? = some (.one x) ∧ signals[b]? = some (.one y) ∧
      bit = op.apply x y

/-- When all inputs are given bytes, the signal of each wire is what its gate says. -/
theorem Netlist.evaluate_explained {nl : Netlist} {assignment : Assignment} (ordered : nl.Ordered)
    (covers : assignment.Covers nl) :
    ∃ signals, nl.evaluate assignment = .ok signals ∧
      ∀ (wire : Nat) (gate : Gate), nl.gates[wire]? = some gate →
        ∃ bit, signals[wire]? = some (.one bit) ∧ gate.Explains assignment signals wire bit := by
  obtain ⟨level, evaluated, settled, assigned⟩ := evaluate_settled ordered covers
  refine ⟨_, evaluated, fun wire gate found => ?_⟩
  have below := lt_size_of_getElem? found
  have known : ∀ operand ∈ gate.operands,
      (signalsOf nl.size level)[operand]? = some (.one (level operand)) := fun operand member =>
    getElem?_signalsOf (Nat.lt_trans (ordered wire gate found operand member) below) level
  refine ⟨level wire, getElem?_signalsOf below level, ?_⟩
  have settles := settled wire gate found
  cases gate with
  | input label =>
      have input : wire ∈ nl.inputs := mem_inputs_iff.mpr ⟨label, found⟩
      obtain ⟨value, given, -⟩ := covers wire input
      refine ⟨value, given, ?_⟩
      rw [assigned wire input, Assignment.level, given, bitValue_bitOf, Int.shiftRight_zero]
  | buffer source =>
      rw [Gate.Settled] at settles
      rw [Gate.Explains, settles]
      exact known source (by simp [Gate.operands])
  | logic op a b =>
      exact ⟨level a, level b, known a (by simp [Gate.operands]), known b (by simp [Gate.operands]),
        settles⟩

/-- Evaluation is well defined and stays what it is while a session goes on.  Take a session on a
netlist that requests lead to, any further requests, and an assignment that gives the inputs there
are by then single bytes, if anything.

* Evaluation succeeds exactly when every input has an entry.
* If it fails, it is refused as a bad request that names the lowest input without an entry.
* If it succeeds, there is one bit for each wire, which is the lowest bit of its number for an
  input, the bit of its source for a buffer, and what its operator makes of its operands for a logic
  gate.  The first bits are those that the netlist evaluated to before the further requests.
* Entries of anything but inputs have no effect. -/
theorem Session.evaluation_stable {session : Session} {more : List Request}
    {assignment : Assignment} (reachable : session.netlist.Reachable)
    (bytes : assignment.InBytes (session.serveAll more).netlist) :
    let later := (session.serveAll more).netlist
    ((∃ signals, later.evaluate assignment = .ok signals) ↔
      ∀ wire ∈ later.inputs, assignment.get? wire ≠ none) ∧
    (∀ error, later.evaluate assignment = .error error →
      ∃ (label : String) (wire : Nat), later.gates[wire]? = some (.input label) ∧
        assignment.get? wire = none ∧
        (∀ earlier ∈ later.inputs, earlier < wire → assignment.get? earlier ≠ none) ∧
        error = .unassigned label wire ∧ error.cls = .badRequest ∧
        error.message = s!"No value for input {label} (wire {wire})") ∧
    (∀ signals, later.evaluate assignment = .ok signals →
      signals.size = later.size ∧
      (∀ (wire : Nat) (gate : Gate), later.gates[wire]? = some gate →
        ∃ bit, signals[wire]? = some (.one bit) ∧ gate.Explains assignment signals wire bit) ∧
      session.netlist.evaluate assignment = .ok (signals.take session.netlist.size)) ∧
    ∀ other : Assignment, (∀ wire ∈ later.inputs, other.get? wire = assignment.get? wire) →
      later.evaluate other = later.evaluate assignment := by
  intro later
  have growth : session.netlist.Grows later := serveAll_grows session more
  have ordered : later.Ordered := growth.ordered reachable.ordered
  refine ⟨?succeeds, ?refused, ?signals, fun other same => Netlist.evaluate_congr same⟩
  case succeeds =>
    rcases Netlist.covers_or_refused ordered bytes with covers | ⟨label, wire, gap, refused⟩
    · obtain ⟨signals, evaluated, -⟩ := Netlist.evaluate_explained ordered covers
      refine iff_of_true ⟨signals, evaluated⟩ fun wire member => ?_
      obtain ⟨value, given, -⟩ := covers wire member
      simp [given]
    · have input : wire ∈ later.inputs := Netlist.mem_inputs_iff.mpr ⟨label, gap.found⟩
      exact iff_of_false (by simp [refused]) fun given => given wire input gap.missing
  case refused =>
    intro error failed
    rcases Netlist.covers_or_refused ordered bytes with covers | ⟨label, wire, gap, refused⟩
    · obtain ⟨signals, evaluated, -⟩ := Netlist.evaluate_explained ordered covers
      cases failed.symm.trans evaluated
    · cases failed.symm.trans refused
      exact ⟨label, wire, gap.found, gap.missing, gap.first, rfl, rfl, rfl⟩
  case signals =>
    intro signals succeeded
    refine ⟨Netlist.size_of_evaluate succeeded, ?_, growth.evaluate_take succeeded⟩
    rcases Netlist.covers_or_refused ordered bytes with covers | ⟨label, wire, gap, refused⟩
    · obtain ⟨same, evaluated, explained⟩ := Netlist.evaluate_explained ordered covers
      cases succeeded.symm.trans evaluated
      exact explained
    · cases succeeded.symm.trans refused

/-- A gate on the first two of three inputs, a copy of it, and a fourth input after them. -/
def lateInput : List Request :=
  [.gate (.op .and) (.wire 0) (.wire 1), .buffer (.wire 3), .input (.text "late")]

/-- Bytes for three inputs, and a number for a wire that is none of them. -/
def earlyBytes : Assignment :=
  .ofList [(0, .one 255), (1, .one 7), (2, .one 2), (4, .one (-9))]

/-- The same with a byte for the fourth input. -/
def lateBytes : Assignment :=
  .ofList [(0, .one 255), (1, .one 7), (2, .one 2), (4, .one (-9)), (5, .one 4)]

/-- A fourth input comes late.  Without a value for it the netlist is not evaluated any more, and
with one the first signals are those of the three inputs alone. -/
theorem Session.evaluation_stable_lateInput :
    let later := (Session.serveAll { netlist := threeInputs } lateInput).netlist
    threeInputs.Reachable ∧ earlyBytes.InBytes later ∧ lateBytes.InBytes later ∧
    (∃ error, later.evaluate earlyBytes = .error error ∧
      error.message = "No value for input late (wire 5)") ∧
    ∃ signals, later.evaluate lateBytes = .ok signals ∧ signals.size = 6 ∧
      threeInputs.evaluate lateBytes = .ok (signals.take 3) := by
  intro later
  have listed : later.inputs = [0, 1, 2, 5] := by decide
  have inputs : ∀ wire ∈ later.inputs, wire = 0 ∨ wire = 1 ∨ wire = 2 ∨ wire = 5 := by
    simp [listed]
  have early : earlyBytes.InBytes later := by
    intro wire member value given
    rcases inputs wire member with rfl | rfl | rfl | rfl <;> cases given <;>
      exact ⟨_, rfl, by decide, by decide⟩
  have full : lateBytes.InBytes later := by
    intro wire member value given
    rcases inputs wire member with rfl | rfl | rfl | rfl <;> cases given <;>
      exact ⟨_, rfl, by decide, by decide⟩
  obtain ⟨without, refused, -⟩ :=
    @Session.evaluation_stable { netlist := threeInputs } lateInput _ threeInputs_reachable early
  obtain ⟨succeeds, -, signals, -⟩ :=
    @Session.evaluation_stable { netlist := threeInputs } lateInput _ threeInputs_reachable full
  refine ⟨threeInputs_reachable, early, full, ?_, ?_⟩
  · cases outcome : later.evaluate earlyBytes with
    | ok signals => exact absurd rfl (without.mp ⟨signals, outcome⟩ 5 (by simp [later, listed]))
    | error error =>
        obtain ⟨label, wire, found, missing, -, -, -, message⟩ := refused error outcome
        refine ⟨error, rfl, message.trans ?_⟩
        rcases inputs wire (Netlist.mem_inputs_iff.mpr ⟨label, found⟩) with rfl | rfl | rfl | rfl
        · cases missing
        · cases missing
        · cases missing
        · cases found
          rfl
  · have given : ∀ wire ∈ later.inputs, lateBytes.get? wire ≠ none := by
      intro wire member
      rcases inputs wire member with rfl | rfl | rfl | rfl <;> exact Option.some_ne_none _
    obtain ⟨found, evaluated⟩ := succeeds.mpr given
    obtain ⟨sized, -, taken⟩ := signals found evaluated
    exact ⟨found, evaluated, sized, taken⟩

end CarrySave
