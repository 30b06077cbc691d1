/-
Module: CarrySave.Proofs.Circuit.Lockstep
Layer: Proofs
Purpose: Compressions side by side.  Two netlists grow in lockstep when gates of one kind are added
  to both, whose operands are wires that were given as a pair or wires of gates added earlier at one
  place.  Compressions of columns of such wires take the same steps, so they keep in lockstep to
  their end, whatever the numbers of the wires are and however often a wire occurs.
Main exports: Counterpart, Gate.Counterpart, Netlist.Lockstep, Compressor.Step.lockstep,
  Compressor.Run.lockstep, compress_lockstep
-/
import CarrySave.Proofs.Circuit.Reduction
import Mathlib.Data.List.Forall2

namespace CarrySave

open Compressor

/-! ### Wires and gates that correspond -/

/-- Two wires play the same part after some gates have been made on top of `m` gates and of `n`
gates: they are a given pair of wires, or the wires of gates made at the same place. -/
inductive Counterpart (given : Nat → Nat → Prop) (m n made : Nat) : Nat → Nat → Prop where
  | old {x y : Nat} (pair : given x y) : Counterpart given m n made x y
  | fresh (place : Nat) (earlier : place < made) :
      Counterpart given m n made (m + place) (n + place)

/-- Two gates are of the same kind and operator, and their operands play the same parts. -/
inductive Gate.Counterpart (wires : Nat → Nat → Prop) : Gate → Gate → Prop where
  | buffer {x y : Nat} (source : wires x y) : Gate.Counterpart wires (.buffer x) (.buffer y)
  | logic (op : Op) {a b c d : Nat} (left : wires a c) (right : wires b d) :
      Gate.Counterpart wires (.logic op a b) (.logic op c d)

/-- Two netlists have grown in lockstep from two others, by as many gates as are made: each gate
corresponds to the gate added to the other netlist at the same time. -/
inductive Netlist.Lockstep (given : Nat → Nat → Prop) (one two : Netlist) :
    Nat → Netlist → Netlist → Prop where
  | start : Lockstep given one two 0 one two
  | push {made : Nat} {first second : Netlist} {gate other : Gate}
      (sofar : Lockstep given one two made first second)
      (gates : gate.Counterpart (CarrySave.Counterpart given one.size two.size made) other) :
      Lockstep given one two (made + 1) (first.push gate) (second.push other)

section Lockstep

variable {given : Nat → Nat → Prop} {one two first second : Netlist} {made later : Nat}

theorem Counterpart.mono {m n x y : Nat} (part : Counterpart given m n made x y)
    (le : made ≤ later) : Counterpart given m n later x y := by
  cases part with
  | old pair => exact .old pair
  | fresh place earlier => exact .fresh place (Nat.lt_of_lt_of_le earlier le)

theorem Counterpart.mono_list {m n : Nat} {wires others : List Nat}
    (parts : List.Forall₂ (Counterpart given m n made) wires others) (le : made ≤ later) :
    List.Forall₂ (Counterpart given m n later) wires others :=
  parts.imp fun _ _ part => part.mono le

theorem Counterpart.mono_columns {m n : Nat} {columns others : List (List Nat)}
    (parts : List.Forall₂ (List.Forall₂ (Counterpart given m n made)) columns others)
    (le : made ≤ later) :
    List.Forall₂ (List.Forall₂ (Counterpart given m n later)) columns others :=
  parts.imp fun _ _ column => mono_list column le

namespace Netlist.Lockstep

theorem sizes (lockstep : Lockstep given one two made first second) :
    first.size = one.size + made ∧ second.size = two.size + made := by
  induction lockstep with
  | start => exact ⟨rfl, rfl⟩
  | push _ _ inductionHypothesis =>
      rw [size_push, size_push, inductionHypothesis.1, inductionHypothesis.2]
      exact ⟨rfl, rfl⟩

/-- Wires that are yet to come at the same place play the same part once they are there. -/
theorem fresh (lockstep : Lockstep given one two made first second) (place : Nat)
    (earlier : made + place < later) :
    Counterpart given one.size two.size later (first.size + place) (second.size + place) := by
  rw [lockstep.sizes.1, lockstep.sizes.2, Nat.add_assoc, Nat.add_assoc]
  exact .fresh (made + place) earlier

/-! ### Cells in lockstep -/

theorem withHalfAdder (lockstep : Lockstep given one two made first second) {a b c d : Nat}
    (left : Counterpart given one.size two.size made a c)
    (right : Counterpart given one.size two.size made b d) :
    Lockstep given one two (made + 2) (first.withHalfAdder a b) (second.withHalfAdder c d) :=
  have sum := lockstep.push (.logic .xor left right)
  sum.push (.logic .and (left.mono (Nat.le_succ _)) (right.mono (Nat.le_succ _)))

theorem withFullAdder (lockstep : Lockstep given one two made first second) {a b c d e f : Nat}
    (left : Counterpart given one.size two.size made a d)
    (middle : Counterpart given one.size two.size made b e)
    (right : Counterpart given one.size two.size made c f) :
    Lockstep given one two (made + 5) (first.withFullAdder a b c) (second.withFullAdder d e f) := by
  have lower := lockstep.withHalfAdder left middle
  have upper := lower.withHalfAdder (lockstep.fresh 0 (by omega)) (right.mono (by omega))
  exact upper.push (.logic .or (lockstep.fresh 1 (by omega)) (lockstep.fresh 3 (by omega)))

/-! ### Existing wires -/

section Existing

variable (exist : ∀ x y, given x y → x < one.size ∧ y < two.size)

include exist

/-- If the wires of a given pair exist, so do all wires that play the same part. -/
theorem has (lockstep : Lockstep given one two made first second) {wires others : List Nat}
    (parts : List.Forall₂ (Counterpart given one.size two.size made) wires others) :
    first.Has wires ∧ second.Has others := by
  induction parts with
  | nil => exact ⟨first.has_nil, second.has_nil⟩
  | cons part _ inductionHypothesis =>
      obtain ⟨sizeFirst, sizeSecond⟩ := lockstep.sizes
      rw [has_cons_iff, has_cons_iff, sizeFirst, sizeSecond]
      cases part with
      | old pair =>
          obtain ⟨below, belowOther⟩ := exist _ _ pair
          exact ⟨⟨by omega, inductionHypothesis.1⟩, by omega, inductionHypothesis.2⟩
      | fresh place earlier =>
          exact ⟨⟨by omega, inductionHypothesis.1⟩, by omega, inductionHypothesis.2⟩

theorem has_columns (lockstep : Lockstep given one two made first second)
    {columns others : List (List Nat)}
    (parts : List.Forall₂ (List.Forall₂ (Counterpart given one.size two.size made))
      columns others) :
    (∀ column ∈ columns, first.Has column) ∧ ∀ column ∈ others, second.Has column := by
  induction parts with
  | nil => simp
  | cons part _ inductionHypothesis =>
      obtain ⟨has, hasOther⟩ := lockstep.has exist part
      rw [List.forall_mem_cons, List.forall_mem_cons]
      exact ⟨⟨has, inductionHypothesis.1⟩, hasOther, inductionHypothesis.2⟩

end Existing

end Netlist.Lockstep

end Lockstep

namespace Compressor

/-! ### Stages in lockstep -/

/-- Bits of the same weight whose wires play the same part. -/
def BitCounterpart (given : Nat → Nat → Prop) (m n made : Nat) (bit other : Nat × Nat) : Prop :=
  bit.1 = other.1 ∧ Counterpart given m n made bit.2 other.2

theorem forall₂_deposit {R : Nat → Nat → Prop} {wire other : Nat} {columns others : List (List Nat)}
    (parts : List.Forall₂ (List.Forall₂ R) columns others) (part : R wire other) :
    List.Forall₂ (List.Forall₂ R) (deposit wire columns) (deposit other others) := by
  cases parts with
  | nil => exact .cons (.cons part .nil) .nil
  | cons column rest => exact .cons (List.rel_append column (.cons part .nil)) rest

/-- Two compressions have come to the same point: their netlists have grown in lockstep, and the
wires at each place of their columns play the same part. -/
structure Stage.Lockstep (given : Nat → Nat → Prop) (one two : Netlist) (made : Nat)
    (first second : Stage) : Prop where
  netlists : Netlist.Lockstep given one two made first.netlist second.netlist
  weight_eq : first.weight = second.weight
  columns : List.Forall₂ (List.Forall₂ (Counterpart given one.size two.size made))
    first.columns second.columns

section Steps

variable {given : Nat → Nat → Prop} {one two : Netlist} {made : Nat}
  {first second firstAfter secondAfter : Stage} {bits others : List (Nat × Nat)}

/-- Stages at the same point take the same step.  Which step it is depends on the height of the
lowest column only. -/
theorem Step.lockstep (lockstep : Stage.Lockstep given one two made first second)
    (step : Step first bits firstAfter) (stepOther : Step second others secondAfter) :
    ∃ later, made ≤ later ∧ Stage.Lockstep given one two later firstAfter secondAfter ∧
      List.Forall₂ (BitCounterpart given one.size two.size later) bits others := by
  obtain ⟨netlists, sameWeight, columns⟩ := lockstep
  obtain ⟨nl, weight, columnsOther, has⟩ := second
  -- Taking the correspondence of the lowest columns apart leaves one step for the other stage.
  cases step with
  | skip =>
      obtain _ | ⟨_ | _, rest⟩ := columns
      cases stepOther
      exact ⟨made, Nat.le_refl _, ⟨netlists, congrArg (· + 1) sameWeight, rest⟩, .nil⟩
  | keep =>
      obtain _ | ⟨_ | ⟨x, _ | _⟩, rest⟩ := columns
      cases stepOther
      exact ⟨made, Nat.le_refl _, ⟨netlists, congrArg (· + 1) sameWeight, rest⟩,
        .cons ⟨sameWeight, x⟩ .nil⟩
  | half =>
      obtain _ | ⟨_ | ⟨x, _ | ⟨y, _ | _⟩⟩, rest⟩ := columns
      cases stepOther
      refine ⟨made + 2, Nat.le_add_right _ _,
        ⟨netlists.withHalfAdder x y, congrArg (· + 1) sameWeight, ?_⟩,
        .cons ⟨sameWeight, netlists.fresh 0 (by omega)⟩ .nil⟩
      exact forall₂_deposit (Counterpart.mono_columns rest (by omega)) (netlists.fresh 1 (by omega))
  | full =>
      obtain _ | ⟨_ | ⟨x, _ | ⟨y, _ | ⟨z, more⟩⟩⟩, rest⟩ := columns
      cases stepOther
      refine ⟨made + 5, Nat.le_add_right _ _, ⟨netlists.withFullAdder x y z, sameWeight, ?_⟩, .nil⟩
      refine .cons (List.rel_append (Counterpart.mono_list more (by omega)) ?_) ?_
      · exact .cons (netlists.fresh 2 (by omega)) .nil
      · exact forall₂_deposit (Counterpart.mono_columns rest (by omega))
          (netlists.fresh 4 (by omega))

/-- Runs from the same point to their ends keep in lockstep. -/
theorem Run.lockstep (lockstep : Stage.Lockstep given one two made first second)
    (run : Run first bits firstAfter) (runOther : Run second others secondAfter)
    (empty : firstAfter.columns = []) (emptyOther : secondAfter.columns = []) :
    ∃ later, made ≤ later ∧ Stage.Lockstep given one two later firstAfter secondAfter ∧
      List.Forall₂ (BitCounterpart given one.size two.size later) bits others := by
  induction run generalizing second others made with
  | refl stage =>
      -- Where one run has no columns left, the other has none either.
      have noColumns := lockstep.columns
      rw [empty, List.forall₂_nil_left_iff] at noColumns
      obtain ⟨rfl, rfl⟩ := runOther.of_nil noColumns
      exact ⟨made, Nat.le_refl _, lockstep, .nil⟩
  | step head tail inductionHypothesis =>
      cases runOther with
      | refl =>
          have noColumns := lockstep.columns
          rw [emptyOther, List.forall₂_nil_right_iff] at noColumns
          cases head <;> cases noColumns
      | step headOther tailOther =>
          obtain ⟨middle, fewer, stages, early⟩ := head.lockstep lockstep headOther
          obtain ⟨last, more, ends, late⟩ := inductionHypothesis stages tailOther empty
          refine ⟨last, Nat.le_trans fewer more, ends, List.rel_append (early.imp ?_) late⟩
          exact fun _ _ bit => ⟨bit.1, bit.2.mono more⟩

end Steps

end Compressor

/-! ### Compressions in lockstep -/

section Compressions

variable {given : Nat → Nat → Prop} {one two first second : Netlist} {made : Nat}
  {columns others : List (List Nat)}
  (exist : ∀ x y, given x y → x < one.size ∧ y < two.size)
  (lockstep : Netlist.Lockstep given one two made first second)
  (parts : List.Forall₂ (List.Forall₂ (Counterpart given one.size two.size made)) columns others)

include exist lockstep parts

/-- Compressions of columns whose wires play the same parts succeed in lockstep, and give bits of
the same weights. -/
theorem compressColumns_lockstep :
    ∃ (later : Nat) (bits bitsOther : List (Nat × Nat)) (grown grownOther : Netlist),
      (compressColumns (references columns)).run first =
        .ok (bits.map fun (weight, bit) => (weight, .wire bit)) grown ∧
      (compressColumns (references others)).run second =
        .ok (bitsOther.map fun (weight, bit) => (weight, .wire bit)) grownOther ∧
      Netlist.Lockstep given one two later grown grownOther ∧
      List.Forall₂ (BitCounterpart given one.size two.size later) bits bitsOther := by
  obtain ⟨has, hasOther⟩ := lockstep.has_columns exist parts
  obtain ⟨bits, last, runs, run, empty⟩ := compressColumns_run has
  obtain ⟨bitsOther, lastOther, runsOther, runOther, emptyOther⟩ := compressColumns_run hasOther
  have start : Stage.Lockstep given one two made ⟨first, 0, columns, has⟩
      ⟨second, 0, others, hasOther⟩ := ⟨lockstep, rfl, parts⟩
  obtain ⟨later, -, ends, sameBits⟩ := run.lockstep start runOther empty emptyOther
  exact ⟨later, bits, bitsOther, last.netlist, lastOther.netlist, runs, runsOther, ends.netlists,
    sameBits⟩

theorem compress_lockstep :
    ∃ (later : Nat) (bits bitsOther : List Nat) (grown grownOther : Netlist),
      (compress (references columns)).run first = .ok (bits.map .wire) grown ∧
      (compress (references others)).run second = .ok (bitsOther.map .wire) grownOther ∧
      Netlist.Lockstep given one two later grown grownOther ∧
      List.Forall₂ (Counterpart given one.size two.size later) bits bitsOther := by
  obtain ⟨later, bits, bitsOther, grown, grownOther, runs, runsOther, ends, sameBits⟩ :=
    compressColumns_lockstep exist lockstep parts
  refine ⟨later, bits.map (·.2), bitsOther.map (·.2), grown, grownOther, run_compress runs,
    run_compress runsOther, ends, ?_⟩
  rw [List.forall₂_map_left_iff, List.forall₂_map_right_iff]
  exact sameBits.imp fun _ _ bit => bit.2

end Compressions

end CarrySave
