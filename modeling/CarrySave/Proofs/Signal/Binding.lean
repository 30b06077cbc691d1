/-
Module: CarrySave.Proofs.Signal.Binding
Layer: Proofs
Purpose: Operands as numbers on inputs.  When inputs of their own are given the lowest bits of
  integers, each group of inputs makes its integer modulo a power of two.
Main exports: entriesOn, bitEntries, ofPairs_checked, Assignment.ofOperands, assignBits_single,
  assignOperands_single, covers_ofOperands, numberOn_operand
-/
import CarrySave.Proofs.Roster
import CarrySave.Proofs.Signal.Numbers
import CarrySave.Signal.Verification

namespace CarrySave

/-! ### Values on wires -/

/-- The entries that give wires values by their places. -/
def entriesOn (wires : List Nat) (value : Nat → Batch Int) : List (Int × Batch Int) :=
  (wires.zip (List.range wires.length)).map fun place => ((place.1 : Int), value place.2)

@[simp] theorem keys_entriesOn (wires : List Nat) (value : Nat → Batch Int) :
    (entriesOn wires value).map (·.1) = wires.map Int.ofNat := by
  have firsts : (wires.zip (List.range wires.length)).map Prod.fst = wires :=
    List.map_fst_zip (by simp)
  calc (entriesOn wires value).map (·.1)
      = ((wires.zip (List.range wires.length)).map Prod.fst).map Int.ofNat := by
        simp [entriesOn, Function.comp_def]
    _ = wires.map Int.ofNat := by rw [firsts]

theorem mem_entriesOn {wires : List Nat} {index : Nat} (below : index < wires.length)
    (value : Nat → Batch Int) : ((wires[index] : Int), value index) ∈ entriesOn wires value := by
  refine List.mem_map.mpr ⟨(wires[index], index), ?_, rfl⟩
  rw [List.mem_iff_getElem]
  exact ⟨index, by simpa using below, by simp⟩

/-- The entries that give wires the lowest bits of an integer. -/
def bitEntries (wires : List Nat) (value : Int) : List (Int × Batch Int) :=
  (wires.zip (List.range wires.length)).map fun place =>
    ((place.1 : Int), .one (bitValue (bitOf value place.2)))

theorem bitEntries_eq (wires : List Nat) (value : Int) :
    bitEntries wires value = entriesOn wires fun index => .one (bitValue (bitOf value index)) := rfl

@[simp] theorem keys_bitEntries (wires : List Nat) (value : Int) :
    (bitEntries wires value).map (·.1) = wires.map Int.ofNat := by
  rw [bitEntries_eq, keys_entriesOn]

/-- Values that pass the check are entered on wires as they are. -/
theorem ofPairs_checked {α : Type} {items : List α} {wire : α → Nat} {value : α → Batch Int}
    (checked : ∀ item ∈ items, (value item).checked = .ok (value item)) :
    Assignment.ofPairs (items.map fun item => (.wire (wire item), value item)) =
      .ok (Roster.ofList (items.map fun item => ((wire item : Int), value item))) := by
  rw [Assignment.ofPairs, List.mapM_map,
    mapM_eq_pure_map (g := fun item => some ((wire item : Int), value item))]
  · simp [List.filterMap_map, pure, Except.pure, bind, Except.bind]
  · intro item member
    simp [checked item member, Datum.wire, Datum.key, Datum.number?, bind, Except.bind, pure,
      Except.pure]

/-- Giving wires the bits of a single number never fails. -/
theorem assignBits_single (wires : List Nat) (value : Int) :
    assignBits (wires.map .wire) (.one value) = .ok (Roster.ofList (bitEntries wires value)) := by
  have paired : (wires.map Datum.wire).zip (((List.range wires.length).map fun index =>
        Batch.one (bitOf value index)).map Signal.number) =
      (wires.zip (List.range wires.length)).map fun place =>
        (Datum.wire place.1, Batch.one (bitValue (bitOf value place.2))) := by
    rw [List.map_map, List.zip_map]
    rfl
  have split : intToBits (.one value) (wires.map Datum.wire).length =
      .ok ((List.range wires.length).map fun index => Batch.one (bitOf value index)) := by
    simp [intToBits, Batch.isSingle, Batch.map]
  calc assignBits (wires.map .wire) (.one value)
      = Assignment.ofPairs ((wires.map Datum.wire).zip (((List.range wires.length).map
          fun index => Batch.one (bitOf value index)).map Signal.number)) := by
        simp only [assignBits, Batch.checked, bind, Except.bind, split]
    _ = .ok (Roster.ofList (bitEntries wires value)) := by
        rw [paired]
        exact ofPairs_checked fun _ _ => rfl

/-! ### Operands

An operand is a group of wires together with the integer whose bits they are given. -/

/-- The assignment that gives all operands their bits. -/
def Assignment.ofOperands (operands : List (List Nat × Int)) : Assignment :=
  ⟨operands.flatMap fun operand => bitEntries operand.1 operand.2⟩

theorem keys_ofOperands (operands : List (List Nat × Int)) :
    (Assignment.ofOperands operands).keys = (operands.flatMap (·.1)).map Int.ofNat := by
  induction operands with
  | nil => rfl
  | cons operand rest inductionHypothesis =>
      simp only [Assignment.ofOperands, Roster.keys, List.flatMap_cons, List.map_append]
        at inductionHypothesis ⊢
      rw [inductionHypothesis, keys_bitEntries]

section Distinct

variable {operands : List (List Nat × Int)} (distinct : (operands.flatMap (·.1)).Nodup)

include distinct

theorem nodup_keys_ofOperands : (Assignment.ofOperands operands).keys.Nodup := by
  rw [keys_ofOperands]
  exact distinct.map Int.ofNat_injective

/-- Giving operands of wires of their own their bits never fails. -/
theorem assignOperands_single :
    Design.assignOperands (operands.map fun operand => operand.1.map .wire)
      (operands.map fun operand => .one operand.2) = .ok (Assignment.ofOperands operands) := by
  induction operands with
  | nil => rfl
  | cons operand rest inductionHypothesis =>
      have restDistinct : (rest.flatMap (·.1)).Nodup := by
        rw [List.flatMap_cons] at distinct
        exact distinct.of_append_right
      have keys : ((bitEntries operand.1 operand.2).map (·.1) ++
          (Assignment.ofOperands rest).keys).Nodup := by
        simpa [Assignment.ofOperands, Roster.keys] using nodup_keys_ofOperands distinct
      have first : Roster.ofList (bitEntries operand.1 operand.2) =
          ⟨bitEntries operand.1 operand.2⟩ :=
        Roster.ofList_of_nodup keys.of_append_left
      have joined : (⟨bitEntries operand.1 operand.2⟩ : Assignment).override
          (Assignment.ofOperands rest) = Assignment.ofOperands (operand :: rest) :=
        Roster.override_of_nodup keys
      simp only [List.map_cons, Design.assignOperands, assignBits_single, first, bind, Except.bind,
        inductionHypothesis restDistinct, pure, Except.pure, joined]

/-- A wire of an operand is given the bit of its place. -/
theorem get?_ofOperands {wires : List Nat} {value : Int} (member : (wires, value) ∈ operands)
    {index : Nat} (below : index < wires.length) :
    (Assignment.ofOperands operands).get? wires[index] =
      some (.one (bitValue (bitOf value index))) := by
  apply Roster.get?_of_mem (nodup_keys_ofOperands distinct)
  refine List.mem_flatMap.mpr ⟨(wires, value), member, ?_⟩
  rw [bitEntries_eq]
  exact mem_entriesOn below fun index => .one (bitValue (bitOf value index))

/-- Operands that comprise all inputs of a netlist give each of them one byte. -/
theorem covers_ofOperands {nl : Netlist}
    (all : ∀ wire ∈ nl.inputs, wire ∈ operands.flatMap (·.1)) :
    (Assignment.ofOperands operands).Covers nl := by
  intro wire input
  obtain ⟨⟨wires, value⟩, member, place⟩ := List.mem_flatMap.mp (all wire input)
  obtain ⟨index, below, rfl⟩ := List.mem_iff_getElem.mp place
  refine ⟨_, get?_ofOperands distinct member below, ?_⟩
  cases bitOf value index <;> decide

/-- At the levels that operands are given, the wires of each make its integer modulo a power of
two. -/
theorem numberOn_operand {level : Nat → Bool} {wires : List Nat} {value : Int}
    (member : (wires, value) ∈ operands)
    (given : ∀ wire ∈ wires, level wire = (Assignment.ofOperands operands).level wire) :
    numberOn level wires = value % 2 ^ wires.length := by
  have bits : wires.map (fun wire => bitValue (level wire)) =
      (List.range wires.length).map fun index => bitValue (bitOf value index) := by
    apply List.ext_getElem (by simp)
    intro index below _
    rw [List.length_map] at below
    have found := get?_ofOperands distinct member below
    have bit : level wires[index] = bitOf value index := by
      rw [given _ (List.getElem_mem below), Assignment.level, found]
      exact bitOf_bitValue _
    simp only [List.getElem_map, List.getElem_range, bit]
  rw [numberOn, bits, weightedSum_bits]

end Distinct

end CarrySave
