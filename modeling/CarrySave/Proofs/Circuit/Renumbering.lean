/-
Module: CarrySave.Proofs.Circuit.Renumbering
Layer: Proofs
Purpose: What is built depends on the shape only.  In any two netlists, compressions of columns of
  the same heights and arithmetic of operands of the same widths add gates that correspond one by
  one, up to the numbers of wires: an operand is a caller's wire at the same place of the same
  column or operand, or the wire of the gate added at the same place.  So a circuit that shares a
  netlist with others is the circuit that is built alone.
Main exports: SamePlace, Netlist.withGates, SameCircuit, partialProducts_lockstep,
  circuits_eq_up_to_renumbering
-/
import CarrySave.Proofs.Circuit.Addition
import CarrySave.Proofs.Circuit.Lockstep
import CarrySave.Proofs.Circuit.Multiplication
import CarrySave.Proofs.Signal.CaseByCase

namespace CarrySave

open Compressor

/-! ### Products in lockstep -/

theorem forall₂_set {R : Nat → Nat → Prop} {wires others : List Nat} {x y : Nat}
    (parts : List.Forall₂ R wires others) (part : R x y) (index : Nat) :
    List.Forall₂ R (wires.set index x) (others.set index y) := by
  induction parts generalizing index with
  | nil => exact .nil
  | cons first rest inductionHypothesis =>
      cases index with
      | zero => exact .cons part rest
      | succ index => exact .cons first (inductionHypothesis index)

/-- A multiplication of existing wires at some point of its work: the netlist, and the latest
copies of the bits of both operands. -/
structure ProductStage where
  netlist : Netlist
  a : List Nat
  b : List Nat

namespace ProductStage

/-- The operands as they are handed to partial products. -/
def operands (stage : ProductStage) : Operands :=
  ⟨stage.a.map .wire, stage.b.map .wire⟩

/-- Two multiplications have come to the same point: their netlists have grown in lockstep, and the
latest copies of each bit play the same part. -/
structure Lockstep (given : Nat → Nat → Prop) (one two : Netlist) (made : Nat)
    (first second : ProductStage) : Prop where
  netlists : Netlist.Lockstep given one two made first.netlist second.netlist
  a : List.Forall₂ (Counterpart given one.size two.size made) first.a second.a
  b : List.Forall₂ (Counterpart given one.size two.size made) first.b second.b

/-- The stage when the bits at two places have been copied and the copies multiplied. -/
def withProduct (stage : ProductStage) (i j : Nat) (belowA : i < stage.a.length)
    (belowB : j < stage.b.length) : ProductStage where
  netlist := stage.netlist.withProduct stage.a[i] stage.b[j]
  a := stage.a.set i stage.netlist.size
  b := stage.b.set j (stage.netlist.size + 1)

theorem run_partialProduct {stage : ProductStage} {i j : Nat} (hasA : stage.netlist.Has stage.a)
    (hasB : stage.netlist.Has stage.b) (belowA : i < stage.a.length)
    (belowB : j < stage.b.length) :
    (partialProduct stage.operands i j).run stage.netlist =
      .ok (stage.netlist.size + 2, (stage.withProduct i j belowA belowB).operands)
        (stage.withProduct i j belowA belowB).netlist :=
  CarrySave.run_partialProduct hasA hasB belowA belowB

theorem inside_withProduct {stage : ProductStage} {i j : Nat} {belowA : i < stage.a.length}
    {belowB : j < stage.b.length} {pairs : List (Nat × Nat)} :
    Inside (stage.withProduct i j belowA belowB).a (stage.withProduct i j belowA belowB).b pairs ↔
      Inside stage.a stage.b pairs := by
  simp only [Inside, withProduct, List.length_set]

end ProductStage

section Products

variable {given : Nat → Nat → Prop} {one two : Netlist} {made : Nat}
  {first second : ProductStage}
  (exist : ∀ x y, given x y → x < one.size ∧ y < two.size)

theorem ProductStage.Lockstep.withProduct (lockstep : Lockstep given one two made first second)
    {i j : Nat} (belowA : i < first.a.length) (belowB : j < first.b.length)
    (belowOtherA : i < second.a.length) (belowOtherB : j < second.b.length) :
    Lockstep given one two (made + 3) (first.withProduct i j belowA belowB)
      (second.withProduct i j belowOtherA belowOtherB) := by
  obtain ⟨netlists, a, b⟩ := lockstep
  have left := a.get belowA belowOtherA
  have right := b.get belowB belowOtherB
  have copies := (netlists.push (.buffer left)).push (.buffer (right.mono (Nat.le_succ made)))
  have product := copies.push
    (.logic .and (netlists.fresh 0 (by omega)) (netlists.fresh 1 (by omega)))
  exact ⟨product,
    forall₂_set (Counterpart.mono_list a (by omega)) (netlists.fresh 0 (by omega)) i,
    forall₂_set (Counterpart.mono_list b (by omega)) (netlists.fresh 1 (by omega)) j⟩

include exist

/-- Multiplications at the same point build the products along a diagonal in lockstep. -/
theorem diagonalProducts_lockstep {pairs : List (Nat × Nat)}
    (lockstep : first.Lockstep given one two made second)
    (inside : Inside first.a first.b pairs) :
    ∃ (later : Nat) (firstAfter secondAfter : ProductStage) (column other : List Nat),
      (diagonalProducts first.operands pairs).run first.netlist =
        .ok (column.map .wire, firstAfter.operands) firstAfter.netlist ∧
      (diagonalProducts second.operands pairs).run second.netlist =
        .ok (other.map .wire, secondAfter.operands) secondAfter.netlist ∧
      made ≤ later ∧ firstAfter.Lockstep given one two later secondAfter ∧
      (∀ pairs, Inside firstAfter.a firstAfter.b pairs ↔ Inside first.a first.b pairs) ∧
      List.Forall₂ (Counterpart given one.size two.size later) column other := by
  induction pairs generalizing first second made with
  | nil =>
      exact ⟨made, first, second, [], [], rfl, rfl, Nat.le_refl _, lockstep, fun _ => Iff.rfl, .nil⟩
  | cons pair rest inductionHypothesis =>
      obtain ⟨i, j⟩ := pair
      obtain ⟨⟨belowA, belowB⟩, insideRest⟩ := List.forall_mem_cons.mp inside
      have belowOtherA : i < second.a.length := lockstep.a.length_eq ▸ belowA
      have belowOtherB : j < second.b.length := lockstep.b.length_eq ▸ belowB
      obtain ⟨hasA, hasOtherA⟩ := lockstep.netlists.has exist lockstep.a
      obtain ⟨hasB, hasOtherB⟩ := lockstep.netlists.has exist lockstep.b
      have product := ProductStage.run_partialProduct hasA hasB belowA belowB
      have productOther :=
        ProductStage.run_partialProduct hasOtherA hasOtherB belowOtherA belowOtherB
      obtain ⟨later, firstAfter, secondAfter, column, other, runs, runsOther, more, ends, places,
        products⟩ := inductionHypothesis
          (lockstep.withProduct belowA belowB belowOtherA belowOtherB)
          (ProductStage.inside_withProduct.mpr insideRest)
      exact ⟨later, firstAfter, secondAfter, (first.netlist.size + 2) :: column,
        (second.netlist.size + 2) :: other, run_diagonalProducts_cons product runs,
        run_diagonalProducts_cons productOther runsOther, by omega, ends,
        fun pairs => (places pairs).trans ProductStage.inside_withProduct,
        .cons (lockstep.netlists.fresh 2 (by omega)) products⟩

/-- Multiplications at the same point build the columns of products of diagonals in lockstep. -/
theorem partialProducts_lockstep {array : List (List (Nat × Nat))}
    (lockstep : first.Lockstep given one two made second)
    (inside : ∀ pairs ∈ array, Inside first.a first.b pairs) :
    ∃ (later : Nat) (columns others : List (List Nat)) (grown grownOther : Netlist),
      (partialProducts first.operands array).run first.netlist = .ok (references columns) grown ∧
      (partialProducts second.operands array).run second.netlist =
        .ok (references others) grownOther ∧
      made ≤ later ∧ Netlist.Lockstep given one two later grown grownOther ∧
      List.Forall₂ (List.Forall₂ (Counterpart given one.size two.size later)) columns others := by
  induction array generalizing first second made with
  | nil =>
      exact ⟨made, [], [], first.netlist, second.netlist, rfl, rfl, Nat.le_refl _,
        lockstep.netlists, .nil⟩
  | cons pairs rest inductionHypothesis =>
      obtain ⟨insideFirst, insideRest⟩ := List.forall_mem_cons.mp inside
      obtain ⟨middle, firstAfter, secondAfter, column, other, runs, runsOther, more, stages, places,
        products⟩ := diagonalProducts_lockstep exist lockstep insideFirst
      obtain ⟨later, columns, others, grown, grownOther, above, aboveOther, further, ends, parts⟩ :=
        inductionHypothesis stages fun pairs member => (places pairs).mpr (insideRest pairs member)
      exact ⟨later, column :: columns, other :: others, grown, grownOther,
        run_partialProducts_cons runs above, run_partialProducts_cons runsOther aboveOther,
        Nat.le_trans more further, ends, .cons (Counterpart.mono_list products further) parts⟩

end Products

/-! ### The same place -/

/-- Two wires stand at the same place of the same column, or of the same operand. -/
def SamePlace (groups others : List (List Nat)) (x y : Nat) : Prop :=
  ∃ (group place : Nat) (wires wiresOther : List Nat),
    groups[group]? = some wires ∧ others[group]? = some wiresOther ∧
      wires[place]? = some x ∧ wiresOther[place]? = some y

section SamePlace

variable {groups others : List (List Nat)}

/-- In columns of the same heights every wire has another at the same place. -/
theorem forall₂_samePlace (heights : groups.map List.length = others.map List.length) :
    List.Forall₂ (List.Forall₂ (SamePlace groups others)) groups others := by
  have sameLength : groups.length = others.length := by simpa using congrArg List.length heights
  refine List.forall₂_iff_get.mpr ⟨sameLength, fun group below belowOther => ?_⟩
  have sameHeight : groups[group].length = others[group].length := by
    have height := List.getElem_of_eq heights (by simpa using below)
    simpa using height
  refine List.forall₂_iff_get.mpr ⟨sameHeight, fun place inside insideOther => ?_⟩
  exact ⟨group, place, groups[group], others[group], List.getElem?_eq_getElem below,
    List.getElem?_eq_getElem belowOther, List.getElem?_eq_getElem inside,
    List.getElem?_eq_getElem insideOther⟩

theorem samePlace_exist {one two : Netlist} (has : ∀ group ∈ groups, one.Has group)
    (hasOther : ∀ group ∈ others, two.Has group) (x y : Nat) (same : SamePlace groups others x y) :
    x < one.size ∧ y < two.size := by
  obtain ⟨group, place, wires, wiresOther, found, foundOther, there, thereOther⟩ := same
  exact ⟨has wires (List.mem_of_getElem? found) x (List.mem_of_getElem? there),
    hasOther wiresOther (List.mem_of_getElem? foundOther) y (List.mem_of_getElem? thereOther)⟩

end SamePlace

/-! ### The same circuit -/

/-- The netlist with some gates more. -/
def Netlist.withGates (nl : Netlist) (gates : List Gate) : Netlist :=
  { nl with gates := nl.gates ++ gates.toArray }

/-- Two operations build the same circuit on two netlists, up to the numbers of wires.  Each adds
gates, as many as the other, and returns wires.  Gates at the same place are of the same kind and
operator, and what stands at the same place of them or of the returned wires is a given pair of
wires, or the wires of gates that have been added before at the same place. -/
def SameCircuit (given : Nat → Nat → Prop) (one two : Netlist)
    (build buildOther : Builder (List Datum)) : Prop :=
  ∃ (added addedOther : List Gate) (outputs outputsOther : List Nat),
    build.run one = .ok (outputs.map .wire) (one.withGates added) ∧
    buildOther.run two = .ok (outputsOther.map .wire) (two.withGates addedOther) ∧
    added.length = addedOther.length ∧
    (∀ (place : Nat) (gate other : Gate),
      added[place]? = some gate → addedOther[place]? = some other →
      gate.Counterpart (Counterpart given one.size two.size place) other) ∧
    List.Forall₂ (Counterpart given one.size two.size added.length) outputs outputsOther

section SameCircuit

variable {given : Nat → Nat → Prop} {one two : Netlist}

/-- Netlists that have grown in lockstep have as many gates more, which correspond one by one. -/
theorem Netlist.Lockstep.exists_added {made : Nat} {first second : Netlist}
    (lockstep : Netlist.Lockstep given one two made first second) :
    ∃ added addedOther : List Gate, first = one.withGates added ∧
      second = two.withGates addedOther ∧ added.length = made ∧ addedOther.length = made ∧
      ∀ (place : Nat) (gate other : Gate),
        added[place]? = some gate → addedOther[place]? = some other →
        gate.Counterpart (CarrySave.Counterpart given one.size two.size place) other := by
  induction lockstep with
  | start => exact ⟨[], [], by simp [withGates], by simp [withGates], rfl, rfl, by simp⟩
  | @push made _ _ last lastOther _ gates inductionHypothesis =>
      -- The count of gates made is the place of the gate that comes last.
      obtain ⟨added, addedOther, rfl, rfl, rfl, sameCount, correspond⟩ := inductionHypothesis
      refine ⟨added ++ [last], addedOther ++ [lastOther], by simp [withGates, Netlist.push],
        by simp [withGates, Netlist.push], by simp, by simp [sameCount], ?_⟩
      intro place gate other found foundOther
      rcases Nat.lt_trichotomy place added.length with earlier | rfl | later
      · rw [List.getElem?_append_left earlier] at found
        rw [List.getElem?_append_left (sameCount ▸ earlier)] at foundOther
        exact correspond place gate other found foundOther
      · rw [List.getElem?_concat_length] at found
        rw [← sameCount, List.getElem?_concat_length] at foundOther
        cases found
        cases foundOther
        exact gates
      · rw [List.getElem?_eq_none (by simpa using Nat.succ_le_of_lt later)] at found
        cases found

/-- Operations that succeed in lockstep build the same circuit. -/
theorem sameCircuit_of_lockstep {build buildOther : Builder (List Datum)}
    (lockstep : ∃ (later : Nat) (bits bitsOther : List Nat) (grown grownOther : Netlist),
      build.run one = .ok (bits.map .wire) grown ∧
      buildOther.run two = .ok (bitsOther.map .wire) grownOther ∧
      Netlist.Lockstep given one two later grown grownOther ∧
      List.Forall₂ (Counterpart given one.size two.size later) bits bitsOther) :
    SameCircuit given one two build buildOther := by
  obtain ⟨later, bits, bitsOther, grown, grownOther, runs, runsOther, ends, parts⟩ := lockstep
  obtain ⟨added, addedOther, rfl, rfl, rfl, count, correspond⟩ := ends.exists_added
  exact ⟨added, addedOther, bits, bitsOther, runs, runsOther, count.symm, correspond, parts⟩

/-- Compressions of columns of given pairs of wires build the same circuit. -/
theorem compress_sameCircuit (exist : ∀ x y, given x y → x < one.size ∧ y < two.size)
    {columns others : List (List Nat)} (pairs : List.Forall₂ (List.Forall₂ given) columns others) :
    SameCircuit given one two (compress (references columns)) (compress (references others)) :=
  sameCircuit_of_lockstep (compress_lockstep exist .start
    (pairs.imp fun _ _ column => column.imp fun _ _ => .old))

theorem forall₂_pairColumns {a b c d : List Nat} (left : List.Forall₂ given a c)
    (right : List.Forall₂ given b d) :
    List.Forall₂ (List.Forall₂ given) (pairColumns a b) (pairColumns c d) := by
  induction left generalizing b d with
  | nil => exact .nil
  | cons first _ inductionHypothesis =>
      cases right with
      | nil => exact .nil
      | cons second rest =>
          exact .cons (.cons first (.cons second .nil)) (inductionHypothesis rest)

section Operands

variable {a b c d : List Nat} (exist : ∀ x y, given x y → x < one.size ∧ y < two.size)
  (left : List.Forall₂ given a c) (right : List.Forall₂ given b d)

include exist left right

theorem adder_sameCircuit (same : a.length = b.length) :
    SameCircuit given one two (adder (a.map .wire) (b.map .wire))
      (adder (c.map .wire) (d.map .wire)) := by
  have sameOther : c.length = d.length := by rw [← left.length_eq, same, right.length_eq]
  rw [adder_eq_compress same, adder_eq_compress sameOther]
  exact compress_sameCircuit exist (forall₂_pairColumns left right)

theorem multiplier_sameCircuit :
    SameCircuit given one two (multiplier (a.map .wire) (b.map .wire))
      (multiplier (c.map .wire) (d.map .wire)) := by
  have start : ProductStage.Lockstep given one two 0 ⟨one, a, b⟩ ⟨two, c, d⟩ :=
    ⟨.start, left.imp fun _ _ => .old, right.imp fun _ _ => .old⟩
  obtain ⟨made, columns, others, middle, middleOther, products, productsOther, -, netlists,
    parts⟩ := partialProducts_lockstep exist start (inside_diagonals a b)
  obtain ⟨later, bits, bitsOther, grown, grownOther, runs, runsOther, ends, outputs⟩ :=
    compress_lockstep exist netlists parts
  rw [left.length_eq, right.length_eq] at productsOther
  exact sameCircuit_of_lockstep ⟨later, bits, bitsOther, grown, grownOther,
    run_multiplier products runs, run_multiplier productsOther runsOther, ends, outputs⟩

end Operands

end SameCircuit

/-- What is built depends on the shape only.  In any two netlists, compressions of existing wires in
columns of the same heights build the same circuit up to the numbers of wires, where a wire of a
column corresponds to the wire at the same place of the same column.  So do population counts of as
many bits, and adders and multipliers of operands of the same widths.  If the operands of the adders
differ in width from each other, both are refused and neither adds a gate. -/
theorem circuits_eq_up_to_renumbering (one two : Netlist) :
    (∀ columns others : List (List Nat), columns.map List.length = others.map List.length →
      (∀ column ∈ columns, one.Has column) → (∀ column ∈ others, two.Has column) →
      SameCircuit (SamePlace columns others) one two
        (compress (references columns)) (compress (references others))) ∧
    (∀ bits others : List Nat, bits.length = others.length → one.Has bits → two.Has others →
      SameCircuit (SamePlace [bits] [others]) one two
        (popcount (bits.map .wire)) (popcount (others.map .wire))) ∧
    (∀ a b c d : List Nat, a.length = c.length → b.length = d.length →
      one.Has a → one.Has b → two.Has c → two.Has d →
      (a.length = b.length → SameCircuit (SamePlace [a, b] [c, d]) one two
        (adder (a.map .wire) (b.map .wire)) (adder (c.map .wire) (d.map .wire))) ∧
      (a.length ≠ b.length →
        (adder (a.map .wire) (b.map .wire)).run one =
          .error (.unequalWidths a.length b.length) one ∧
        (adder (c.map .wire) (d.map .wire)).run two =
          .error (.unequalWidths a.length b.length) two) ∧
      SameCircuit (SamePlace [a, b] [c, d]) one two
        (multiplier (a.map .wire) (b.map .wire)) (multiplier (c.map .wire) (d.map .wire))) := by
  refine ⟨?_, ?_, ?_⟩
  · intro columns others heights has hasOther
    exact compress_sameCircuit (samePlace_exist has hasOther) (forall₂_samePlace heights)
  · intro bits others same has hasOther
    exact compress_sameCircuit (samePlace_exist (by simpa using has) (by simpa using hasOther))
      (forall₂_samePlace (by simpa using same))
  · intro a b c d sameLeft sameRight hasA hasB hasC hasD
    have exist : ∀ x y, SamePlace [a, b] [c, d] x y → x < one.size ∧ y < two.size :=
      samePlace_exist (by simp [hasA, hasB]) (by simp [hasC, hasD])
    obtain _ | ⟨left, _ | ⟨right, _⟩⟩ :=
      forall₂_samePlace (by simp [sameLeft, sameRight] :
        [a, b].map List.length = [c, d].map List.length)
    refine ⟨adder_sameCircuit exist left right, ?_, multiplier_sameCircuit exist left right⟩
    intro different
    have refused := @adder_unequal (a.map .wire) (b.map .wire) (by simpa using different) one
    have refusedOther := @adder_unequal (c.map .wire) (d.map .wire)
      (by simpa [← sameLeft, ← sameRight] using different) two
    simp only [List.length_map] at refused refusedOther
    exact ⟨refused, by rw [refusedOther, sameLeft, sameRight]⟩

/-- Wires that repeat and wires that are far from the inputs, in netlists of different sizes. -/
theorem circuits_eq_up_to_renumbering_sharedGate :
    threeInputs.Reachable ∧ sharedGate.Reachable ∧
    SameCircuit (SamePlace [[0, 2], [2, 2, 1]] [[5, 5], [0, 4, 5]]) threeInputs sharedGate
      (compress (references [[0, 2], [2, 2, 1]])) (compress (references [[5, 5], [0, 4, 5]])) ∧
    SameCircuit (SamePlace [[0, 0, 1]] [[5, 3, 4]]) threeInputs sharedGate
      (popcount ([0, 0, 1].map .wire)) (popcount ([5, 3, 4].map .wire)) ∧
    SameCircuit (SamePlace [[0, 1], [1, 2]] [[5, 5], [4, 0]]) threeInputs sharedGate
      (adder ([0, 1].map .wire) ([1, 2].map .wire)) (adder ([5, 5].map .wire) ([4, 0].map .wire)) ∧
    (adder ([0, 1].map .wire) ([2].map .wire)).run threeInputs =
      .error (.unequalWidths 2 1) threeInputs ∧
    SameCircuit (SamePlace [[0, 1], [2]] [[5, 5], [5]]) threeInputs sharedGate
      (multiplier ([0, 1].map .wire) ([2].map .wire))
      (multiplier ([5, 5].map .wire) ([5].map .wire)) := by
  obtain ⟨compressions, counts, arithmetic⟩ := circuits_eq_up_to_renumbering threeInputs sharedGate
  obtain ⟨adders, -, -⟩ := arithmetic [0, 1] [1, 2] [5, 5] [4, 0] rfl rfl (by decide) (by decide)
    (by decide) (by decide)
  obtain ⟨-, refused, multipliers⟩ := arithmetic [0, 1] [2] [5, 5] [5] rfl rfl (by decide)
    (by decide) (by decide) (by decide)
  refine ⟨threeInputs_reachable, sharedGate_reachable, ?_, ?_, adders rfl,
    (refused (by decide)).1, multipliers⟩
  · exact compressions _ _ (by decide) (by decide) (by decide)
  · exact counts _ _ rfl (by decide) (by decide)

end CarrySave
