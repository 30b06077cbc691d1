/-
Module: CarrySave.Proofs.Signal.Numbers
Layer: Proofs
Purpose: Numbers on wires.  At given levels, wires make a number, least significant first, and
  running a netlist on inputs of one byte each reads that number.  The lowest bits of an
  integer make the integer modulo a power of two.
Main exports: numberOn, weightedSum_bits, bitsToInt_single, readOutputs_wires,
  Netlist.run_eq_numberOn
-/
import CarrySave.Proofs.Signal.Settled
import Mathlib.Tactic.Ring

namespace CarrySave

/-- Applying an action that succeeds on every member of a list amounts to a map. -/
theorem mapM_eq_pure_map {m : Type → Type} [Monad m] [LawfulMonad m] {α β : Type} {f : α → m β}
    {g : α → β} {items : List α} (each : ∀ item ∈ items, f item = pure (g item)) :
    items.mapM f = pure (items.map g) := by
  induction items with
  | nil => simp
  | cons item rest inductionHypothesis =>
      have later := inductionHypothesis fun other member =>
        each other (List.mem_cons_of_mem item member)
      rw [List.mapM_cons, each item List.mem_cons_self, later]
      simp

/-! ### Numbers from bits -/

@[simp] theorem bitValue_bitOf (value : Int) (index : Nat) :
    bitValue (bitOf value index) = (value >>> index) % 2 := by
  rcases Int.emod_two_eq_zero_or_one (value >>> index) with even | odd
  · simp [bitValue, bitOf, even]
  · simp [bitValue, bitOf, odd]

@[simp] theorem bitOf_bitValue (bit : Bool) : bitOf (bitValue bit) 0 = bit := by
  cases bit <;> rfl

/-- Taking off the lowest bit halves a number, rounding down. -/
theorem bitOf_succ (value : Int) (index : Nat) :
    bitOf value (index + 1) = bitOf (value / 2) index := by
  have halved : value >>> (index + 1) = (value / 2) >>> index := by
    rw [Nat.add_comm, Int.shiftRight_add, Int.shiftRight_eq_div_pow value 1]
    simp
  rw [bitOf, bitOf, halved]

/-- The lowest bits of an integer make its remainder. -/
theorem weightedSum_bits (value : Int) (width : Nat) :
    weightedSum ((List.range width).map fun index => bitValue (bitOf value index)) =
      value % 2 ^ width := by
  induction width generalizing value with
  | zero =>
      rw [pow_zero, Int.emod_one]
      rfl
  | succ width inductionHypothesis =>
      have nested : value / 2 / 2 ^ width = value / (2 * 2 ^ width) :=
        Int.ediv_ediv_of_nonneg (by decide)
      rw [List.range_succ_eq_map, List.map_cons, List.map_map, weightedSum]
      simp only [Function.comp_def, Nat.succ_eq_add_one, bitOf_succ]
      rw [inductionHypothesis, bitValue_bitOf, Int.shiftRight_zero, pow_succ', Int.emod_def value 2,
        Int.emod_def (value / 2), Int.emod_def value, nested]
      ring

/-- Single bits are added up as they are. -/
theorem bitsToInt_single (values : List Int) :
    bitsToInt (values.map .one) = .ok (.one (weightedSum values)) := by
  have all : (values.map Batch.one).mapM Batch.single? = some values := by
    rw [List.mapM_map]
    exact (mapM_eq_pure_map fun _ _ => rfl).trans (by simp)
  rw [bitsToInt, all]

/-- The number that wires make at some levels, least significant first. -/
def numberOn (level : Nat → Bool) (wires : List Nat) : Int :=
  weightedSum (wires.map fun wire => bitValue (level wire))

@[simp] theorem numberOn_nil (level : Nat → Bool) : numberOn level [] = 0 := rfl

@[simp] theorem numberOn_cons (level : Nat → Bool) (wire : Nat) (wires : List Nat) :
    numberOn level (wire :: wires) = bitValue (level wire) + 2 * numberOn level wires := rfl

/-! ### Reading numbers from wires -/

/-- An existing wire is its own position. -/
theorem position_wire {length wire : Nat} (below : wire < length) :
    (Datum.wire wire).position length = .ok wire := by
  have notNegative : ¬((wire : Int) < 0) := by omega
  have inRange : (wire : Int) < length := by omega
  simp [Datum.wire, Datum.position, position, notNegative, inRange]

/-- The signal on a wire, a single bit where there is none. -/
def signalOn (signals : Array Signal) (wire : Nat) : Signal :=
  signals[wire]?.getD (.one false)

/-- The number on existing wires is that of their signals. -/
theorem readOutputs_wires {signals : Array Signal} {wires : List Nat}
    (below : ∀ wire ∈ wires, wire < signals.size) :
    readOutputs signals (wires.map .wire) =
      bitsToInt (wires.map fun wire => (signalOn signals wire).number) := by
  have selected : (wires.map Datum.wire).mapM (outputSignal signals) =
      Except.ok (wires.map (signalOn signals)) := by
    rw [List.mapM_map]
    refine mapM_eq_pure_map fun wire member => ?_
    simp [outputSignal, position_wire (below wire member), bind, Except.bind, signalAt, signalOn,
      below wire member, pure, Except.pure]
  simp only [readOutputs, selected, bind, Except.bind, List.map_map, Function.comp_def]

/-- Existing wires that carry single bits are read as the number that they make. -/
theorem readOutputs_signalsOf {size : Nat} {wires : List Nat} (level : Nat → Bool)
    (below : ∀ wire ∈ wires, wire < size) :
    readOutputs (signalsOf size level) (wires.map .wire) = .ok (.one (numberOn level wires)) := by
  have carried : ∀ wire ∈ wires, (signalOn (signalsOf size level) wire).number =
      .one (bitValue (level wire)) := by
    intro wire member
    simp [signalOn, signalsOf, below wire member, Signal.number, Batch.map]
  rw [readOutputs_wires (by simpa using below), List.map_congr_left carried, numberOn,
    ← bitsToInt_single, List.map_map]
  rfl

/-- Running a netlist reads the number that wires make at the levels it settles at. -/
theorem Netlist.run_eq_numberOn {nl : Netlist} {assignment : Assignment} {level : Nat → Bool}
    {wires : List Nat} (evaluated : nl.evaluate assignment = .ok (signalsOf nl.size level))
    (below : ∀ wire ∈ wires, wire < nl.size) :
    nl.run assignment (wires.map .wire) = .ok (.one (numberOn level wires)) := by
  simp only [run, evaluated, bind, Except.bind, readOutputs_signalsOf level below]

end CarrySave
