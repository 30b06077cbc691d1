/-
Module: CarrySave.Proofs.Signal.Words
Layer: Proofs
Purpose: Numbers of many cases at once.  Bits that are batches of one size, or single, make a
  number in each case.  The sum is taken in words, but up to sixty-three bits it stays below the
  sign bit, so no word overflows and the numbers are exact.  More bits are refused.
Main exports: Batch.Amounts, Batch.Amounts.zipWith, bitsToInt_amounts, bitsToInt_tooManyBits
-/
import CarrySave.Proofs.Signal.Batch
import CarrySave.Proofs.Signal.Numbers
import Mathlib.Algebra.Order.Ring.Int
import Mathlib.Tactic.Positivity

namespace CarrySave

/-! ### Values of a given number of cases -/

namespace Batch

variable {α β γ : Type}

/-- A value amounts to some entries in a number of cases: it is single, or it has that many
entries, and in every case it is the entry of that case. -/
structure Amounts (count : Nat) (entry : Nat → α) (batch : Batch α) : Prop where
  size_eq : ∀ values, batch = .many values → values.size = count
  inCase_eq : ∀ index < count, batch.inCase index = some (entry index)

namespace Amounts

variable {count : Nat}

theorem many_range (entry : Nat → α) : Amounts count entry (.many ((Array.range count).map entry)) where
  size_eq := by simp
  inCase_eq := fun index below => by rw [inCase_of_lt (by simpa using below)]; simp

theorem congr {entry other : Nat → α} {batch : Batch α} (amounts : Amounts count entry batch)
    (same : ∀ index < count, entry index = other index) : Amounts count other batch where
  size_eq := amounts.size_eq
  inCase_eq := fun index below => by rw [amounts.inCase_eq index below, same index below]

theorem map {entry : Nat → α} {batch : Batch α} (amounts : Amounts count entry batch)
    (f : α → β) : Amounts count (fun index => f (entry index)) (batch.map f) where
  size_eq := by
    intro values same
    cases batch with
    | one value => cases same
    | many given =>
        cases same
        simpa using amounts.size_eq given rfl
  inCase_eq := fun index below => by rw [inCase_map, amounts.inCase_eq index below]; rfl

/-- Values of the same number of cases are always combined, case by case. -/
theorem zipWith {xEntry : Nat → α} {yEntry : Nat → β} {x : Batch α} {y : Batch β}
    (left : Amounts count xEntry x) (right : Amounts count yEntry y) (f : α → β → γ) :
    ∃ z, Batch.zipWith f x y = .ok z ∧
      Amounts count (fun index => f (xEntry index) (yEntry index)) z ∧
      z.isSingle = (x.isSingle && y.isSingle) := by
  match x, y with
  | .one a, y =>
      have mapped : Batch.zipWith f (.one a) y = .ok (y.map (f a)) := by cases y <;> rfl
      refine ⟨_, mapped, (right.map (f a)).congr ?_, by cases y <;> rfl⟩
      intro index below
      have same := left.inCase_eq index below
      cases same
      rfl
  | .many xs, .one b =>
      refine ⟨_, rfl, (left.map (f · b)).congr ?_, rfl⟩
      intro index below
      have same := right.inCase_eq index below
      cases same
      rfl
  | .many xs, .many ys =>
      have xSize := left.size_eq xs rfl
      have ySize := right.size_eq ys rfl
      obtain ⟨zs, zipped, size, cases⟩ :=
        zipWith_of_compatible f (.inl (xSize.trans ySize.symm) : Compatible xs.size ys.size)
      refine ⟨_, zipped, ⟨?_, fun index below => ?_⟩, rfl⟩
      · intro values same
        cases same
        rw [size, xSize, ySize, ite_self]
      · rw [cases, left.inCase_eq index below, right.inCase_eq index below]
        rfl

/-- The values of all cases, one by one. -/
theorem spread_eq {entry : Nat → α} {batch : Batch α} (amounts : Amounts count entry batch) :
    batch.spread count = (Array.range count).map entry := by
  cases batch with
  | one value =>
      apply Array.ext (by simp [spread])
      intro index below _
      have same := amounts.inCase_eq index (by simpa [spread] using below)
      cases same
      simp [spread]
  | many values =>
      have size := amounts.size_eq values rfl
      apply Array.ext (by simp [spread, size])
      intro index below _
      have same := amounts.inCase_eq index (by simpa [spread, size] using below)
      rw [inCase_of_lt (by simpa [spread] using below)] at same
      simp only [Array.getElem_map, Array.getElem_range, ← Option.some.inj same]
      rfl

end Amounts

end Batch

/-! ### Adding up bits in words -/

theorem isWord_bitValue (bit : Bool) : isWord (bitValue bit) = true := by
  cases bit <;> rfl

/-- As long as no more than sixty-three bits have come before it, adding a bit in words adds it
exactly. -/
theorem wordOf_add_bit {sum : Int} {weight : Nat} (small : weight < Error.maxBatchBits)
    (nonneg : 0 ≤ sum) (lt : sum < 2 ^ weight) (bit : Bool) :
    wordOf (sum + wordOf (bitValue bit * 2 ^ weight)) = sum + bitValue bit * 2 ^ weight := by
  have room : (2 : Int) ^ weight * 2 ≤ 2 ^ 63 := by
    rw [← pow_succ]
    exact pow_le_pow_right₀ (by decide) small
  have positive : (0 : Int) < 2 ^ weight := by positivity
  have added : 0 ≤ bitValue bit * 2 ^ weight ∧ bitValue bit * 2 ^ weight ≤ 2 ^ weight := by
    cases bit with
    | false => simp [bitValue, positive.le]
    | true => simp [bitValue, positive.le]
  have inner : wordOf (bitValue bit * 2 ^ weight) = bitValue bit * 2 ^ weight :=
    wordOf_of_lt (by omega) (by omega)
  rw [inner]
  exact wordOf_of_lt (by omega) (by omega)

section Bits

variable {count : Nat}

/-- Adding one more bit to numbers that it exceeds. -/
theorem addBit_amounts {total : Batch Int} {sum : Nat → Int} {added : Signal} {bit : Nat → Bool}
    {weight : Nat} (totals : total.Amounts count sum) (bits : added.Amounts count bit)
    (small : weight < Error.maxBatchBits)
    (bounds : ∀ index < count, 0 ≤ sum index ∧ sum index < 2 ^ weight) :
    ∃ next, addBit total added.number weight = .ok next ∧
      next.Amounts count (fun index => sum index + bitValue (bit index) * 2 ^ weight) ∧
      next.isSingle = (total.isSingle && added.isSingle) := by
  have accepted : addBit total added.number weight = Batch.zipWith
      (fun sum value => wordOf (sum + wordOf (value * 2 ^ weight))) total (added.map bitValue) := by
    cases added with
    | one value => simp [addBit, Signal.number, Batch.map, isWord_bitValue]
    | many values => simp [addBit, Signal.number, Batch.map]
  obtain ⟨next, zipped, amounts, single⟩ := totals.zipWith (bits.map bitValue)
    fun sum value => wordOf (sum + wordOf (value * 2 ^ weight))
  refine ⟨next, accepted.trans zipped, amounts.congr ?_, ?_⟩
  · intro index below
    obtain ⟨nonneg, lt⟩ := bounds index below
    exact wordOf_add_bit small nonneg lt (bit index)
  · rw [single]
    cases added <;> rfl

variable {α : Type} {signal : α → Signal} {level : Nat → α → Bool} {items : List α}

/-- Adding bit after bit gives, in every case, the number that they make. -/
theorem foldlM_addBit_amounts
    (each : ∀ item ∈ items, (signal item).Amounts count fun index => level index item)
    {total : Batch Int} {sum : Nat → Int} {place : Nat} (totals : total.Amounts count sum)
    (room : place + items.length ≤ Error.maxBatchBits)
    (bounds : ∀ index < count, 0 ≤ sum index ∧ sum index < 2 ^ place) :
    ∃ result, ((items.map fun item => (signal item).number).zipIdx place).foldlM
        (fun total (bit, weight) => addBit total bit weight) total = .ok result ∧
      result.Amounts count (fun index =>
        sum index + weightedSum (items.map fun item => bitValue (level index item)) * 2 ^ place) ∧
      result.isSingle = (total.isSingle && items.all fun item => (signal item).isSingle) := by
  induction items generalizing total sum place with
  | nil => exact ⟨total, rfl, by simpa [weightedSum] using totals, by simp⟩
  | cons item rest inductionHypothesis =>
      obtain ⟨first, others⟩ := List.forall_mem_cons.mp each
      rw [List.length_cons] at room
      obtain ⟨next, added, amounts, single⟩ := addBit_amounts totals first (by omega) bounds
      have further : ∀ index < count, 0 ≤ sum index + bitValue (level index item) * 2 ^ place ∧
          sum index + bitValue (level index item) * 2 ^ place < 2 ^ (place + 1) := by
        intro index below
        obtain ⟨nonneg, lt⟩ := bounds index below
        rw [pow_succ]
        cases level index item with
        | false => simp [bitValue]; omega
        | true => simp [bitValue]; omega
      obtain ⟨result, folded, totals, singles⟩ :=
        inductionHypothesis others amounts (by omega) further
      refine ⟨result, ?_, totals.congr ?_, ?_⟩
      · simp only [List.map_cons, List.zipIdx_cons, List.foldlM_cons, added, bind, Except.bind]
        exact folded
      · intro index _
        rw [List.map_cons, weightedSum, pow_succ]
        ring
      · rw [singles, single, List.all_cons, Bool.and_assoc]

/-- As soon as one bit is a batch, the bits are not all single. -/
theorem mapM_single?_of_batch {item : α} (member : item ∈ items)
    (batch : (signal item).isSingle = false) :
    (items.map fun item => (signal item).number).mapM Batch.single? = none := by
  induction items with
  | nil => cases member
  | cons first rest inductionHypothesis =>
      rw [List.map_cons, List.mapM_cons]
      rcases List.mem_cons.mp member with rfl | later
      · cases carried : signal item with
        | one bit => simp [carried, Batch.isSingle] at batch
        | many bits => rfl
      · rw [inductionHypothesis later]
        cases (signal first).number.single? <;> rfl

/-- Up to sixty-three bits, each of them single or a batch of one size, make a number in every
case.  It is a single number only if all bits are single. -/
theorem bitsToInt_amounts
    (each : ∀ item ∈ items, (signal item).Amounts count fun index => level index item)
    (few : items.length ≤ Error.maxBatchBits) :
    ∃ result, bitsToInt (items.map fun item => (signal item).number) = .ok result ∧
      result.Amounts count
        (fun index => weightedSum (items.map fun item => bitValue (level index item))) ∧
      result.isSingle = items.all fun item => (signal item).isSingle := by
  cases singles : items.all fun item => (signal item).isSingle with
  | true =>
      let bit (item : α) : Bool := (signal item).single?.getD false
      have single : ∀ item ∈ items, signal item = .one (bit item) := by
        intro item member
        have isSingle := List.all_eq_true.mp singles item member
        cases carried : signal item with
        | one value => simp [bit, carried, Batch.single?]
        | many values => simp [carried, Batch.isSingle] at isSingle
      have numbers : ∀ item ∈ items, (signal item).number = .one (bitValue (bit item)) := by
        intro item member
        rw [single item member]
        rfl
      refine ⟨.one (weightedSum (items.map fun item => bitValue (bit item))), ?_, ⟨by simp, ?_⟩, rfl⟩
      · rw [List.map_congr_left numbers, ← bitsToInt_single, List.map_map]
        rfl
      · intro index below
        have same : ∀ item ∈ items, bitValue (bit item) = bitValue (level index item) := by
          intro item member
          have entry := (each item member).inCase_eq index below
          rw [single item member, Batch.inCase_one] at entry
          rw [Option.some.inj entry]
        rw [Batch.inCase_one, List.map_congr_left same]
  | false =>
      obtain ⟨item, member, batch⟩ := List.all_eq_false.mp singles
      have start : (Batch.one (0 : Int)).Amounts count fun _ => 0 := ⟨by simp, by simp⟩
      obtain ⟨result, folded, amounts, single⟩ :=
        @foldlM_addBit_amounts _ _ _ _ _ each _ _ 0 start (by omega) (by simp)
      refine ⟨result, ?_, amounts.congr (by simp), by simp [single, singles]⟩
      rw [bitsToInt, mapM_single?_of_batch member (by simpa using batch)]
      simp only [List.length_map, if_neg (Nat.not_lt.mpr few)]
      exact folded

/-- More than sixty-three bits, one of them a batch, are refused. -/
theorem bitsToInt_tooManyBits {item : α} (member : item ∈ items)
    (batch : (signal item).isSingle = false) (many : Error.maxBatchBits < items.length) :
    bitsToInt (items.map fun item => (signal item).number) = .error (.tooManyBits items.length) := by
  rw [bitsToInt, mapM_single?_of_batch member batch]
  simp only [List.length_map, if_pos many]

end Bits

end CarrySave
