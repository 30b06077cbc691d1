/-
Module: CarrySave.Proofs.Signal.RoundTrip
Layer: Proofs
Purpose: Numbers and their bits, there and back.  The lowest bits of a single number of any size,
  negative ones included, make it modulo a power of two, and any bits are the bits of the number
  that they make.  For many cases at once both hold case by case up to sixty-three bits, the most
  for which no word overflows, and more are refused.
Main exports: bitOf_weightedSum, weightedSum_map, Batch.Amounts.eq_many, Signal.bitIn,
  bitsToInt_uniform, bits_roundTrip
-/
import CarrySave.Proofs.Signal.Words
import Mathlib.Algebra.BigOperators.Ring.List

namespace CarrySave

/-! ### Bits of a sum of bits -/

/-- The bits of the number that bits make are these bits. -/
theorem bitOf_weightedSum {bits : List Bool} {index : Nat} (below : index < bits.length) :
    bitOf (weightedSum (bits.map bitValue)) index = bits[index] := by
  induction bits generalizing index with
  | nil => cases below
  | cons bit rest inductionHypothesis =>
      rw [List.map_cons, weightedSum]
      cases index with
      | zero => cases bit <;> simp [bitOf, bitValue]
      | succ index =>
          have halved : (bitValue bit + 2 * weightedSum (rest.map bitValue)) / 2 =
              weightedSum (rest.map bitValue) := by
            cases bit with
            | false => simp [bitValue]
            | true => simp only [bitValue, if_true]; omega
          rw [bitOf_succ, halved, inductionHypothesis (by simpa using below),
            List.getElem_cons_succ]

/-- Bits make the sum of their values at the weights of their places. -/
theorem weightedSum_map {α : Type} (value : α → Int) (items : List α) :
    weightedSum (items.map value) =
      (items.mapIdx fun place item => value item * 2 ^ place).sum := by
  induction items with
  | nil => rfl
  | cons item rest inductionHypothesis =>
      have above : (rest.mapIdx fun place item => value item * 2 ^ (place + 1)).sum =
          2 * (rest.mapIdx fun place item => value item * 2 ^ place).sum := by
        rw [List.mapIdx_eq_zipIdx_map, List.mapIdx_eq_zipIdx_map, ← List.sum_map_mul_left]
        congr 2
        funext ⟨entry, place⟩
        simp only
        ring
      rw [List.map_cons, weightedSum, inductionHypothesis, List.mapIdx_cons, List.sum_cons, above,
        pow_zero, mul_one]

/-! ### Single numbers -/

/-- The bits of a number make its remainder. -/
theorem bitsToInt_of_number (value : Int) (width : Nat) :
    ∃ bits, intToBits (.one value) width = .ok bits ∧
      bitsToInt (bits.map Signal.number) = .ok (.one (value % 2 ^ width)) := by
  refine ⟨_, rfl, ?_⟩
  rw [← weightedSum_bits, ← bitsToInt_single, List.map_map, List.map_map]
  rfl

/-- Single bits are the bits of the number that they make. -/
theorem intToBits_of_bits (bits : List Bool) :
    ∃ number, bitsToInt ((bits.map Batch.one).map Signal.number) = .ok (.one number) ∧
      intToBits (.one number) bits.length = .ok (bits.map .one) := by
  refine ⟨weightedSum (bits.map bitValue), ?_, ?_⟩
  · rw [← bitsToInt_single, List.map_map, List.map_map]
    rfl
  · have back : (List.range bits.length).map (bitOf (weightedSum (bits.map bitValue))) = bits := by
      apply List.ext_getElem (by simp)
      intro place _ below
      rw [List.getElem_map, List.getElem_range, bitOf_weightedSum below]
    rw [← congrArg (List.map Batch.one) back, List.map_map]
    rfl

/-! ### Bits of many cases -/

/-- What amounts to some entries and is not single is the batch of these entries. -/
theorem Batch.Amounts.eq_many {α : Type} {count : Nat} {entry : Nat → α} {batch : Batch α}
    (amounts : batch.Amounts count entry) (notSingle : batch.isSingle = false) :
    batch = .many ((Array.range count).map entry) := by
  cases batch with
  | one value => cases notSingle
  | many values =>
      have spread := amounts.spread_eq
      rw [Batch.spread] at spread
      rw [spread]

/-- The bit of a signal in a case, zero if it has no such case. -/
def Signal.bitIn (index : Nat) (signal : Signal) : Bool :=
  (signal.inCase index).getD false

/-- The batches among some signals have the same number of cases. -/
def Uniform (count : Nat) (bits : List Signal) : Prop :=
  ∀ values, .many values ∈ bits → values.size = count

theorem Uniform.amounts {count : Nat} {bits : List Signal} (uniform : Uniform count bits)
    {signal : Signal} (member : signal ∈ bits) : signal.Amounts count (signal.bitIn ·) := by
  cases signal with
  | one bit => exact ⟨by simp, fun _ _ => rfl⟩
  | many values =>
      have size := uniform values member
      refine ⟨fun _ same => by cases same; exact size, fun index below => ?_⟩
      rw [Signal.bitIn, Batch.inCase_of_lt (size ▸ below)]
      rfl

/-- Up to sixty-three bits, of which the batches have the same number of cases and one is a batch,
make a batch of the numbers that the bits of each case make. -/
theorem bitsToInt_uniform {count : Nat} {bits : List Signal}
    (few : bits.length ≤ Error.maxBatchBits) (uniform : Uniform count bits)
    (batch : ∃ values, .many values ∈ bits) :
    bitsToInt (bits.map Signal.number) = .ok (.many ((Array.range count).map fun index =>
      weightedSum (bits.map fun bit => bitValue (bit.bitIn index)))) := by
  obtain ⟨result, made, amounts, single⟩ := bitsToInt_amounts (fun _ => uniform.amounts) few
  have notSingle : result.isSingle = false := by
    obtain ⟨values, member⟩ := batch
    rw [single, List.all_eq_false]
    exact ⟨_, member, by simp [Batch.isSingle]⟩
  rw [made, amounts.eq_many notSingle]

/-- Words have up to sixty-three bits, each of them in every case. -/
theorem intToBits_many (values : Array Int) {width : Nat} (narrow : width ≤ Error.maxBatchBits) :
    intToBits (.many values) width =
      .ok ((List.range width).map fun place => .many (values.map (bitOf · place))) := by
  have notWide : ¬((Error.maxBatchBits : Int) < width) := by omega
  simp [intToBits, Batch.isSingle, notWide, Batch.map]

/-- More bits of words are refused. -/
theorem intToBits_tooWide (values : Array Int) {width : Nat} (wide : Error.maxBatchBits < width) :
    intToBits (.many values) width = .error (.tooWide width) := by
  have tooWide : (Error.maxBatchBits : Int) < width := by omega
  simp [intToBits, Batch.isSingle, tooWide]

/-- The bits of a batch of numbers make the remainder of each. -/
theorem bitsToInt_of_numbers (values : Array Int) {width : Nat} (positive : 1 ≤ width)
    (narrow : width ≤ Error.maxBatchBits) :
    ∃ bits, intToBits (.many values) width = .ok bits ∧
      bitsToInt (bits.map Signal.number) = .ok (.many (values.map (· % 2 ^ width))) := by
  refine ⟨_, intToBits_many values narrow, ?_⟩
  have uniform : Uniform values.size
      ((List.range width).map fun place => .many (values.map (bitOf · place))) := by
    intro row member
    obtain ⟨place, -, same⟩ := List.mem_map.mp member
    cases same
    simp
  have batch : ∃ row, .many row ∈
      (List.range width).map fun place => Batch.many (values.map (bitOf · place)) :=
    ⟨_, List.mem_map_of_mem (List.mem_range.mpr positive)⟩
  rw [bitsToInt_uniform (by simpa using narrow) uniform batch]
  congr 2
  apply Array.ext (by simp)
  intro index _ below
  have inside : index < values.size := by simpa using below
  simp only [Array.getElem_map, Array.getElem_range, List.map_map, ← weightedSum_bits]
  congr 2
  funext place
  simp [Signal.bitIn, Batch.inCase_of_lt, inside]

/-- Up to sixty-three bits, of which one is a batch, are in every case the bits of the number that
they make there. -/
theorem intToBits_of_uniform {count : Nat} {bits : List Signal}
    (few : bits.length ≤ Error.maxBatchBits) (uniform : Uniform count bits) :
    intToBits (.many ((Array.range count).map fun index =>
        weightedSum (bits.map fun bit => bitValue (bit.bitIn index)))) bits.length =
      .ok (bits.map fun bit => .many (bit.spread count)) := by
  rw [intToBits_many _ few]
  congr 1
  apply List.ext_getElem (by simp)
  intro place _ below
  have inside : place < bits.length := by simpa using below
  have spread := (uniform.amounts (List.getElem_mem inside)).spread_eq
  simp only [List.getElem_map, List.getElem_range, Array.map_map, spread]
  congr 2
  funext index
  have bit := @bitOf_weightedSum (bits.map (·.bitIn index)) place (by simpa using inside)
  rw [List.map_map, List.getElem_map] at bit
  exact bit

/-- Numbers and bits, there and back.

* A single number of any size, negative or not, is given back modulo the power of two that the
  number of its bits says, and single bits of any number are given back as they are.
* Of a batch of words the same holds word by word for one bit up to sixty-three.
* Up to sixty-three bits, some of them single and some of them batches of one size, at least one
  being a batch, make in each case the exact sum of the bits of that case at their weights, and that
  gives the bits back, single ones repeated in every case.
* With more bits batches are refused both ways. -/
theorem bits_roundTrip :
    (∀ (value : Int) (width : Nat), ∃ bits, intToBits (.one value) width = .ok bits ∧
      bitsToInt (bits.map Signal.number) = .ok (.one (value % 2 ^ width))) ∧
    (∀ bits : List Bool, ∃ number,
      bitsToInt ((bits.map Batch.one).map Signal.number) = .ok (.one number) ∧
      intToBits (.one number) bits.length = .ok (bits.map .one)) ∧
    (∀ (words : Array Int64) (width : Nat), 1 ≤ width → width ≤ 63 →
      ∃ bits, intToBits (.many (words.map Int64.toInt)) width = .ok bits ∧
        bitsToInt (bits.map Signal.number) =
          .ok (.many (words.map fun word => word.toInt % 2 ^ width))) ∧
    (∀ (count : Nat) (bits : List Signal), bits.length ≤ 63 → Uniform count bits →
      (∃ values, .many values ∈ bits) →
      ∃ numbers : Array Int, bitsToInt (bits.map Signal.number) = .ok (.many numbers) ∧
        numbers.size = count ∧
        (∀ index (below : index < numbers.size), numbers[index] =
          (bits.mapIdx fun place bit => bitValue (bit.bitIn index) * 2 ^ place).sum) ∧
        intToBits (.many numbers) bits.length =
          .ok (bits.map fun bit => .many (bit.spread count))) ∧
    (∀ (words : Array Int64) (width : Nat), 63 < width →
      intToBits (.many (words.map Int64.toInt)) width = .error (.tooWide width) ∧
      (Error.tooWide width).cls = .badRequest) ∧
    (∀ bits : List Signal, 63 < bits.length → (∃ values, .many values ∈ bits) →
      bitsToInt (bits.map Signal.number) = .error (.tooManyBits bits.length) ∧
      (Error.tooManyBits bits.length).cls = .badRequest) := by
  refine ⟨bitsToInt_of_number, intToBits_of_bits, ?_, ?_, ?_, ?_⟩
  · intro words width positive narrow
    obtain ⟨bits, split, made⟩ := bitsToInt_of_numbers (words.map Int64.toInt) positive narrow
    exact ⟨bits, split, made.trans (by rw [Array.map_map]; rfl)⟩
  · intro count bits few uniform batch
    refine ⟨_, bitsToInt_uniform few uniform batch, by simp, ?_, intToBits_of_uniform few uniform⟩
    intro index below
    rw [Array.getElem_map, Array.getElem_range, weightedSum_map]
  · intro words width wide
    exact ⟨intToBits_tooWide _ wide, rfl⟩
  · intro bits many ⟨values, member⟩
    exact ⟨@bitsToInt_tooManyBits _ id _ _ member rfl many, rfl⟩

/-- A negative number, a batch with a negative word at the most bits there are, a batch beside a
single bit, and one bit too many. -/
theorem bits_roundTrip_mixed :
    (∃ bits, intToBits (.one (-5)) 3 = .ok bits ∧
      bitsToInt (bits.map Signal.number) = .ok (.one 3)) ∧
    (∃ bits, intToBits (.many (#[-1, 6].map Int64.toInt)) 63 = .ok bits ∧
      bitsToInt (bits.map Signal.number) = .ok (.many #[9223372036854775807, 6])) ∧
    (bitsToInt ([.many #[true, false], .one true].map Signal.number) = .ok (.many #[3, 2]) ∧
      intToBits (.many #[3, 2]) 2 = .ok [.many #[true, false], .many #[true, true]]) ∧
    intToBits (.many (#[7].map Int64.toInt)) 64 = .error (.tooWide 64) ∧
    bitsToInt ((.many #[true] :: List.replicate 63 (.one false)).map Signal.number) =
      .error (.tooManyBits 64) := by
  obtain ⟨single, -, words, uniform, wide, many⟩ := bits_roundTrip
  refine ⟨single (-5) 3, ?_, ?_, (wide #[7] 64 (by decide)).1, ?_⟩
  · have remainders : (#[-1, 6] : Array Int64).map (fun word => word.toInt % 2 ^ 63) =
        #[9223372036854775807, 6] := by simp
    rw [← remainders]
    exact words #[-1, 6] 63 (by decide) (by decide)
  · obtain ⟨numbers, made, size, entries, back⟩ :=
      uniform 2 [.many #[true, false], .one true] (by decide) (by simp [Uniform])
        ⟨#[true, false], by simp⟩
    have same : numbers = #[3, 2] := by
      apply Array.ext size
      intro index inside below
      rw [entries index inside]
      match index with
      | 0 => rfl
      | 1 => rfl
    subst same
    exact ⟨made, back⟩
  · have refused := (many (.many #[true] :: List.replicate 63 (.one false)) (by simp)
      ⟨_, List.mem_cons_self⟩).1
    simpa using refused

end CarrySave
