/-
Module: CarrySave.Proofs.Signal.Settled
Layer: Proofs
Purpose: Single-case evaluation by its result instead of its passes.  Levels are settled on a
  netlist when every gate computes its own level from those of its operands.  Evaluating a
  netlist whose inputs have one byte each succeeds and yields settled levels, and levels that
  are settled on a netlist are settled on every netlist that it grew from.
Main exports: Netlist.Settled, Netlist.settled_push_iff, Netlist.Settled.of_grows,
  Netlist.Extends, Assignment.Covers, signalsOf, Netlist.evaluate_settled
-/
import CarrySave.Netlist.Query
import CarrySave.Signal.Evaluation
import CarrySave.Proofs.Netlist.Growth
import Mathlib.Logic.Function.Basic

namespace CarrySave

/-! ### Settled levels -/

/-- A gate is settled when its wire has the level that it computes from the levels of its
operands.  An input may have any level. -/
def Gate.Settled (level : Nat → Bool) (wire : Nat) : Gate → Prop
  | .input _ => True
  | .buffer source => level wire = level source
  | .logic op a b => level wire = op.apply (level a) (level b)

/-- Levels are settled on a netlist when all its gates are. -/
def Netlist.Settled (nl : Netlist) (level : Nat → Bool) : Prop :=
  ∀ (wire : Nat) (gate : Gate), nl.gates[wire]? = some gate → gate.Settled level wire

/-- Whether a gate is settled depends on its own level and on those of its operands. -/
theorem Gate.settled_congr {level other : Nat → Bool} {wire : Nat} {gate : Gate}
    (same : level wire = other wire)
    (sameOperands : ∀ operand ∈ gate.operands, level operand = other operand) :
    gate.Settled level wire ↔ gate.Settled other wire := by
  cases gate with
  | input label => exact Iff.rfl
  | buffer source =>
      have sameSource := sameOperands source (by simp [operands])
      simp only [Settled, same, sameSource]
  | logic op a b =>
      have sameA := sameOperands a (by simp [operands])
      have sameB := sameOperands b (by simp [operands])
      simp only [Settled, same, sameA, sameB]

namespace Netlist

theorem settled_push_iff {nl : Netlist} {gate : Gate} {level : Nat → Bool} :
    (nl.push gate).Settled level ↔ nl.Settled level ∧ gate.Settled level nl.size := by
  constructor
  · intro settled
    constructor
    · intro wire other found
      have below := lt_size_of_getElem? found
      exact settled wire other (by rw [getElem?_push_of_lt below, found])
    · exact settled nl.size gate (getElem?_push_size nl gate)
  · rintro ⟨settled, last⟩ wire other found
    rcases getElem?_push_cases found with earlier | ⟨rfl, rfl⟩
    · exact settled wire other earlier
    · exact last

/-- Levels that are settled after growth were settled before. -/
theorem Settled.of_grows {start grown : Netlist} {level : Nat → Bool}
    (settled : grown.Settled level) (growth : start.Grows grown) : start.Settled level := by
  intro wire gate found
  have below := lt_size_of_getElem? found
  exact settled wire gate (by rw [growth.getElem?_eq below, found])

/-- Levels settled on an ordered netlist may be changed on wires that it does not have. -/
theorem Settled.congr {nl : Netlist} {level other : Nat → Bool} (settled : nl.Settled level)
    (ordered : nl.Ordered) (same : ∀ wire < nl.size, level wire = other wire) :
    nl.Settled other := by
  intro wire gate found
  have below := lt_size_of_getElem? found
  have sameOperands : ∀ operand ∈ gate.operands, level operand = other operand := by
    intro operand member
    exact same operand (Nat.lt_trans (ordered wire gate found operand member) below)
  exact (Gate.settled_congr (same wire below) sameOperands).mp (settled wire gate found)

/-! ### Inputs -/

theorem mem_inputs_iff {nl : Netlist} {wire : Nat} :
    wire ∈ nl.inputs ↔ ∃ label, nl.gates[wire]? = some (.input label) := by
  simp only [inputs, List.mem_filter, List.mem_range]
  constructor
  · rintro ⟨_, isInput⟩
    split at isInput
    · rename_i label found
      exact ⟨label, found⟩
    · cases isInput
  · rintro ⟨label, found⟩
    exact ⟨lt_size_of_getElem? found, by simp [found]⟩

/-- The inputs of a netlist with one more gate. -/
theorem inputs_push (nl : Netlist) (gate : Gate) :
    (nl.push gate).inputs =
      nl.inputs ++ match gate with
        | .input _ => [nl.size]
        | _ => [] := by
  simp only [inputs, size_push, List.range_succ, List.filter_append]
  congr 1
  · apply List.filter_congr
    intro wire member
    rw [getElem?_push_of_lt (List.mem_range.mp member)]
  · cases gate <;> simp

end Netlist

/-- Growth by gates other than inputs. -/
structure Netlist.Extends (nl grown : Netlist) : Prop where
  grows : nl.Grows grown
  inputs_eq : grown.inputs = nl.inputs

namespace Netlist.Extends

theorem refl (nl : Netlist) : nl.Extends nl :=
  ⟨.refl, rfl⟩

theorem trans {first middle last : Netlist} (one : first.Extends middle)
    (two : middle.Extends last) : first.Extends last :=
  ⟨one.grows.trans two.grows, two.inputs_eq.trans one.inputs_eq⟩

theorem buffer {nl : Netlist} {source : Nat} (below : source < nl.size) :
    nl.Extends (nl.push (.buffer source)) :=
  ⟨.push _ .refl (by simp [Gate.operands, below]), by simp [inputs_push]⟩

theorem logic {nl : Netlist} {a b : Nat} (op : Op) (aBelow : a < nl.size) (bBelow : b < nl.size) :
    nl.Extends (nl.push (.logic op a b)) :=
  ⟨.push _ .refl (by simp [Gate.operands, aBelow, bBelow]), by simp [inputs_push]⟩

end Netlist.Extends

/-- Every primary input has a single number of eight bits. -/
def Assignment.Covers (assignment : Assignment) (nl : Netlist) : Prop :=
  ∀ wire ∈ nl.inputs,
    ∃ value : Int, assignment.get? wire = some (.one value) ∧ 0 ≤ value ∧ value ≤ 255

/-- The level that an assignment gives an input. -/
def Assignment.level (assignment : Assignment) (wire : Nat) : Bool :=
  match assignment.get? wire with
  | some (.one value) => bitOf value 0
  | _ => false

/-! ### Evaluation -/

/-- The signals of as many wires as are asked for, each a single bit. -/
def signalsOf (size : Nat) (level : Nat → Bool) : Array Signal :=
  (Array.range size).map fun wire => .one (level wire)

@[simp] theorem size_signalsOf (size : Nat) (level : Nat → Bool) :
    (signalsOf size level).size = size := by
  simp [signalsOf]

theorem getElem?_signalsOf {size wire : Nat} (below : wire < size) (level : Nat → Bool) :
    (signalsOf size level)[wire]? = some (.one (level wire)) := by
  simp [signalsOf, below]

theorem signalAt_signalsOf {size wire : Nat} (below : wire < size) (level : Nat → Bool) :
    signalAt (signalsOf size level) wire = .ok (.one (level wire)) := by
  simp [signalAt, getElem?_signalsOf below]

theorem signalsOf_congr {size : Nat} {level other : Nat → Bool}
    (same : ∀ wire < size, level wire = other wire) :
    signalsOf size level = signalsOf size other := by
  apply Array.ext
  · simp
  · intro wire below _
    rw [size_signalsOf] at below
    simp [signalsOf, same wire below]

theorem signalsOf_succ (size : Nat) (level : Nat → Bool) :
    signalsOf (size + 1) level = (signalsOf size level).push (.one (level size)) := by
  simp [signalsOf, Array.range_succ]

/-- A byte is a word. -/
theorem isWord_of_byte {value : Int} (nonneg : 0 ≤ value) (le : value ≤ 255) :
    isWord value = true := by
  simp [isWord, wordOf_of_lt (by omega : -0x8000000000000000 ≤ value) (by omega)]

theorem inputSignal_byte {value : Int} (nonneg : 0 ≤ value) (le : value ≤ 255) :
    inputSignal (.one value) = .ok (.one (bitOf value 0)) := by
  have inRange : ¬(value < 0 ∨ 255 < value) := by omega
  simp [inputSignal, isWord_of_byte nonneg le, inRange]

/-- The signal of the gate that comes next settles it, whatever its own level was before. -/
theorem gateSignal_settles {assignment : Assignment} {nl : Netlist} {gate : Gate}
    (level : Nat → Bool) (below : ∀ operand ∈ gate.operands, operand < nl.size)
    (covers : assignment.Covers (nl.push gate)) :
    ∃ bit, gateSignal assignment (signalsOf nl.size level) gate = .ok (.one bit) ∧
      gate.Settled (Function.update level nl.size bit) nl.size ∧
      (nl.size ∈ (nl.push gate).inputs → bit = assignment.level nl.size) := by
  cases gate with
  | input label =>
      obtain ⟨value, given, nonneg, le⟩ := covers nl.size (by simp [Netlist.inputs_push])
      refine ⟨bitOf value 0, ?_, trivial, ?_⟩
      · simp [gateSignal, given, inputSignal_byte nonneg le]
      · simp [Assignment.level, given]
  | buffer source =>
      have sourceBelow := below source (by simp [Gate.operands])
      refine ⟨level source, ?_, ?_, ?_⟩
      · simp [gateSignal, signalAt_signalsOf sourceBelow]
      · simp [Gate.Settled, Nat.ne_of_lt sourceBelow]
      · simp [Netlist.mem_inputs_iff]
  | logic op a b =>
      have aBelow := below a (by simp [Gate.operands])
      have bBelow := below b (by simp [Gate.operands])
      refine ⟨op.apply (level a) (level b), ?_, ?_, ?_⟩
      · simp [gateSignal, signalAt_signalsOf aBelow, signalAt_signalsOf bBelow, bind, Except.bind,
          Batch.zipWith]
      · simp [Gate.Settled, Nat.ne_of_lt aBelow, Nat.ne_of_lt bBelow]
      · simp [Netlist.mem_inputs_iff]

theorem Assignment.Covers.extends {assignment : Assignment} {nl grown : Netlist}
    (covers : assignment.Covers nl) (extends' : nl.Extends grown) : assignment.Covers grown := by
  intro wire member
  rw [extends'.inputs_eq] at member
  exact covers wire member

theorem Assignment.Covers.of_push {assignment : Assignment} {nl : Netlist} {gate : Gate}
    (covers : assignment.Covers (nl.push gate)) : assignment.Covers nl := by
  intro wire member
  exact covers wire (by simp [Netlist.inputs_push, member])

/-- When every input has one byte, evaluation succeeds, all wires carry single bits, and their
levels are settled and are those assigned to the inputs. -/
theorem Netlist.evaluate_settled {nl : Netlist} {assignment : Assignment} (ordered : nl.Ordered)
    (covers : assignment.Covers nl) :
    ∃ level : Nat → Bool, nl.evaluate assignment = .ok (signalsOf nl.size level) ∧
      nl.Settled level ∧ ∀ wire ∈ nl.inputs, level wire = assignment.level wire := by
  induction nl using Netlist.push_induction with
  | empty name =>
      refine ⟨fun _ => false, by simp [signalsOf, size], ?_, ?_⟩
      · intro wire gate found
        simp at found
      · intro wire member
        simp [mem_inputs_iff] at member
  | push nl gate inductionHypothesis =>
      obtain ⟨orderedBefore, below⟩ := ordered_push_iff.mp ordered
      obtain ⟨level, evaluated, settled, assigned⟩ :=
        inductionHypothesis orderedBefore covers.of_push
      obtain ⟨bit, signal, settles, assignedLast⟩ := gateSignal_settles level below covers
      -- Earlier wires keep their levels, so only the last one is settled anew.
      have kept : ∀ wire < nl.size, level wire = Function.update level nl.size bit wire := by
        intro wire earlier
        simp [Nat.ne_of_lt earlier]
      refine ⟨Function.update level nl.size bit, ?_, ?_, ?_⟩
      · rw [evaluate_push, evaluated, size_push, signalsOf_succ, ← signalsOf_congr kept]
        simp [bind, Except.bind, extendSignals, signal, pure, Except.pure]
      · exact settled_push_iff.mpr ⟨settled.congr orderedBefore kept, settles⟩
      · intro wire member
        by_cases last : wire = nl.size
        · subst last
          simpa using assignedLast member
        · have earlier : wire ∈ nl.inputs := by
            rw [inputs_push] at member
            rcases List.mem_append.mp member with before | after
            · exact before
            · cases gate <;> simp [last] at after
          have below := List.mem_range.mp (List.mem_filter.mp earlier).1
          rw [← kept wire below]
          exact assigned wire earlier

end CarrySave
