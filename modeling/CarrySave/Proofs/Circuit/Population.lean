/-
Module: CarrySave.Proofs.Circuit.Population
Layer: Proofs
Purpose: Population count.  All bits stand in one column, which is worth the number of them that
  are set, and which has a wire for each of them at most.
Main exports: popcount_computes, popcount_outputs_count
-/
import CarrySave.Proofs.Circuit.Heights
import Mathlib.Data.Nat.Bits
import Mathlib.Data.Nat.Log

namespace CarrySave

open Compressor

/-! ### Counting set bits -/

/-- The values of wires add up to how many of them are set. -/
theorem sum_bitValue (level : Nat → Bool) (wires : List Nat) :
    (wires.map (bitValue ∘ level)).sum = (wires.countP level : Nat) := by
  induction wires with
  | nil => rfl
  | cons wire rest inductionHypothesis =>
      rw [List.map_cons, List.sum_cons, inductionHypothesis, List.countP_cons]
      cases bit : level wire
      · simp [bit, bitValue]
      · simp [bit, bitValue]
        omega

theorem numberOn_nonneg (level : Nat → Bool) (wires : List Nat) : 0 ≤ numberOn level wires := by
  induction wires with
  | nil => simp
  | cons wire rest inductionHypothesis =>
      rw [numberOn_cons]
      cases level wire <;> simp [bitValue] <;> omega

/-- One more digit adds itself to the ones of a number. -/
theorem count_bits_bit (b : Bool) (n : Nat) :
    (Nat.bit b n).bits.count true = n.bits.count true + b.toNat := by
  by_cases leading : n = 0 → b = true
  · rw [Nat.bits_append_bit n b leading, List.count_cons]
    cases b <;> rfl
  · -- Only a zero in front of nothing is no digit.
    obtain ⟨rfl, zero⟩ := Classical.not_imp.mp leading
    rw [Bool.not_eq_true] at zero
    subst zero
    rfl

/-- As many wires are set as there are ones in the number that they make. -/
theorem count_bits_numberOn (level : Nat → Bool) (wires : List Nat) :
    (numberOn level wires).toNat.bits.count true = wires.countP level := by
  induction wires with
  | nil => rfl
  | cons wire rest inductionHypothesis =>
      have nonneg := numberOn_nonneg level rest
      have split : (numberOn level (wire :: rest)).toNat =
          Nat.bit (level wire) (numberOn level rest).toNat := by
        rw [numberOn_cons, Nat.bit_val]
        cases level wire <;> simp [bitValue] <;> omega
      rw [split, count_bits_bit, inductionHypothesis, List.countP_cons]
      cases level wire <;> rfl

/-- The digits of a number are as many as the logarithm of its successor, rounded up. -/
theorem size_eq_clog (n : Nat) : n.size = Nat.clog 2 (n + 1) := by
  apply eq_of_forall_ge_iff
  intro digits
  rw [Nat.size_le, Nat.clog_le_iff_le_pow (by decide)]
  exact Nat.lt_iff_add_one_le

/-! ### The population count -/

theorem gapless_singleton (column : List Nat) : Gapless [column] := by
  cases column with
  | nil => exact gapless_of_capacity_eq_zero rfl
  | cons bit rest => exact gapless_of_ne_nil (by simp)

/-- A population count of existing wires computes how many of them are set. -/
theorem popcount_computes {nl : Netlist} {bits : List Nat} (has : nl.Has bits) :
    (popcount (bits.map .wire)).Computes nl bits.length.size
      fun level => (bits.countP level : Nat) := by
  have compressed := compress_gapless (by simpa using has) (gapless_singleton bits)
  simp only [worth_cons, worth_nil, sum_bitValue, pow_zero, mul_one, add_zero, capacity, mul_zero]
    at compressed
  exact compressed

/-- The population count is correct at every width.  On existing wires it never fails, and
whatever bytes the inputs are given, its outputs, as many as the digits of the number of
wires, make the number of wires whose signal is one.  A circuit that counts the bits of an
integer counts the ones in the lowest bits that its width says. -/
theorem popcount_outputs_count :
    (∀ (nl : Netlist) (bits : List Nat), nl.Reachable → nl.Has bits →
      ∃ (outputs : List Nat) (grown : Netlist),
        (popcount (bits.map .wire)).run nl = .ok (outputs.map .wire) grown ∧
        grown.Has outputs ∧
        outputs.length = bits.length.size ∧
        outputs.length = Nat.clog 2 (bits.length + 1) ∧
        ∀ assignment : Assignment, assignment.Covers nl →
          ∃ signals : Array Signal, grown.evaluate assignment = .ok signals ∧
            grown.run assignment (outputs.map .wire) =
              .ok (.one (bits.countP fun wire => signals[wire]? = some (.one true) : Nat))) ∧
    (∀ (n : Nat) (x : Int),
      (Design.popcount n).compute [.one x] =
        .ok (.one ((x % 2 ^ n).toNat.bits.count true : Nat))) := by
  refine ⟨?_, ?_⟩
  · intro nl bits reachable has
    obtain ⟨outputs, grown, runs, growth, hasOutputs, count, evaluates⟩ :=
      (popcount_computes has).outputs_eq reachable.ordered
    refine ⟨outputs, grown, runs, hasOutputs, count, count.trans (size_eq_clog _), ?_⟩
    intro assignment covers
    obtain ⟨level, evaluated, counted, -⟩ := evaluates assignment covers
    have same : (bits.countP fun wire =>
        (signalsOf grown.size level)[wire]? = some (.one true)) = bits.countP level := by
      apply List.countP_congr
      intro wire member
      have below := has.grows growth wire member
      simp [signalsOf, below]
    exact ⟨_, evaluated, by rw [same]; exact counted⟩
  · intro n x
    have computes : ∀ (nl : Netlist) (wires : List Nat), nl.Has wires → wires.length = n →
        (popcount (wires.map .wire)).Computes nl n.size
          fun level => ((numberOn level wires).toNat.bits.count true : Nat) := by
      rintro nl wires has rfl
      simp only [count_bits_numberOn]
      exact popcount_computes has
    exact Design.compute_one popcount (fun z => (z.toNat.bits.count true : Nat)) rfl computes x

/-- Five bits on three wires, and an integer below zero. -/
theorem popcount_outputs_count_threeInputs :
    (threeInputs.Has [0, 2, 2, 1, 0] ∧ threeBytes.Covers threeInputs ∧
      ∃ (outputs : List Nat) (grown : Netlist) (signals : Array Signal),
        (popcount [.wire 0, .wire 2, .wire 2, .wire 1, .wire 0]).run threeInputs =
          .ok (outputs.map .wire) grown ∧
        outputs.length = 3 ∧
        grown.evaluate threeBytes = .ok signals ∧
        grown.run threeBytes (outputs.map .wire) =
          .ok (.one ([0, 2, 2, 1, 0].countP fun wire => signals[wire]? = some (.one true) : Nat))) ∧
    (Design.popcount 3).compute [.one (-3)] = .ok (.one 2) := by
  obtain ⟨counts, circuit⟩ := popcount_outputs_count
  have has : threeInputs.Has [0, 2, 2, 1, 0] := by decide
  obtain ⟨outputs, grown, runs, -, count, -, evaluates⟩ :=
    counts threeInputs [0, 2, 2, 1, 0] threeInputs_reachable has
  obtain ⟨signals, evaluated, counted⟩ := evaluates threeBytes threeBytes_covers
  have three : outputs.length = 3 := by
    rw [count]
    decide
  refine ⟨⟨has, threeBytes_covers, outputs, grown, signals, runs, three, evaluated, counted⟩, ?_⟩
  exact circuit 3 (-3)

end CarrySave
