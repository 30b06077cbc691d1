/-
Module: CarrySave.Proofs.Circuit.Consumption
Layer: Proofs
Purpose: What becomes of each wire of a compression.  A cell is one half adder, or two in a row and the
  disjunction of their carries.  Half adders are the only gates that take wires out of the columns, and
  what is taken, by them or as a bit, is in some order what was supplied: the wires of the columns and
  those that cells give back.  So wires that are distinct at first are consumed once each, by a bit or
  by the two gates of one half adder.
Main exports: HalfAdder, Cell.outputs, along, fresh_perm, Trace.supply_perm, Netlist.usersFrom,
  users_along, Consumption, Trace.consumption, Trace.passed_subset
-/
import CarrySave.Proofs.Circuit.Cells

namespace CarrySave

namespace Compressor

/-! ### Half adders -/

/-- A half adder: the wire of its sum, which the wire of its carry comes right after, and its
operands. -/
structure HalfAdder where
  sum : Nat
  x : Nat
  y : Nat
deriving DecidableEq, Repr

namespace HalfAdder

def operands (half : HalfAdder) : List Nat :=
  [half.x, half.y]

/-- The gates of a half adder with their places. -/
def gates (half : HalfAdder) : List (Gate × Nat) :=
  [(.logic .xor half.x half.y, half.sum), (.logic .and half.x half.y, half.sum + 1)]

end HalfAdder

/-! ### What a cell consists of

The gates of a cell stand on consecutive wires, from `base` on. -/

namespace Cell

/-- How many gates a cell consists of. -/
def size (cell : Cell) : Nat :=
  cell.adder.kinds.length

/-- The gates of a cell with their places. -/
def gates (base : Nat) : Cell → List (Gate × Nat)
  | .half _ x y => [(.logic .xor x y, base), (.logic .and x y, base + 1)]
  | .full _ x y z =>
      [(.logic .xor x y, base), (.logic .and x y, base + 1), (.logic .xor base z, base + 2),
        (.logic .and base z, base + 3), (.logic .or (base + 1) (base + 3), base + 4)]

/-- The half adders in a cell. -/
def halves (base : Nat) : Cell → List HalfAdder
  | .half _ x y => [⟨base, x, y⟩]
  | .full _ x y z => [⟨base, x, y⟩, ⟨base + 2, base, z⟩]

/-- The sum and the carry that a cell gives back. -/
def outputs (base : Nat) : Cell → List Nat
  | .half _ _ _ => [base, base + 1]
  | .full _ _ _ _ => [base + 2, base + 4]

/-- The sum inside a cell, which the next half adder in it takes. -/
def partials (base : Nat) : Cell → List Nat
  | .half _ _ _ => []
  | .full _ _ _ _ => [base]

/-- The carries inside a cell, which only their disjunction takes. -/
def carries (base : Nat) : Cell → List Nat
  | .half _ _ _ => []
  | .full _ _ _ _ => [base + 1, base + 3]

/-- Every wire of a cell is an output, a sum inside it or a carry inside it. -/
theorem fresh_perm (base : Nat) (cell : Cell) :
    (cell.outputs base ++ cell.partials base ++ cell.carries base).Perm
      (List.range' base cell.size) := by
  rw [List.perm_iff_count]
  intro wire
  cases cell with
  | half weight x y => rfl
  | full weight x y z =>
      have five : List.range' base (Cell.full weight x y z).size =
          [base, base + 1, base + 2, base + 3, base + 4] := rfl
      simp only [five, outputs, partials, carries, List.cons_append, List.nil_append, List.count_cons,
        List.count_nil]
      omega

end Cell

end Compressor

namespace Netlist

open Compressor

@[simp] theorem size_withCell (nl : Netlist) (cell : Cell) :
    (nl.withCell cell).size = nl.size + cell.size := by
  cases cell <;> simp [withCell, Cell.size, Cell.adder, Adder.kinds]

/-- The gates from a place on that have a wire among their operands, with their places. -/
def usersFrom (nl : Netlist) (start wire : Nat) : List (Gate × Nat) :=
  (nl.gates.toList.zipIdx.drop start).filter fun (gate, _) => wire ∈ gate.operands

end Netlist

namespace Compressor

/-! ### Cells one after the other -/

section Along

variable {α : Type} (part : Nat → Cell → List α)

/-- What cells that are built one after the other consist of, when `part` tells it of one cell by the
place of its first gate. -/
def along : Netlist → List Cell → List α
  | _, [] => []
  | nl, cell :: rest => part nl.size cell ++ along (nl.withCell cell) rest

theorem along_append (nl : Netlist) (cells more : List Cell) :
    along part nl (cells ++ more) = along part nl cells ++ along part (nl.withCells cells) more := by
  induction cells generalizing nl with
  | nil => rfl
  | cons cell rest inductionHypothesis =>
      rw [List.cons_append, along, along, inductionHypothesis, List.append_assoc]
      rfl

end Along

/-- The gates that cells add, with their places. -/
theorem zipIdx_withCells (nl : Netlist) (cells : List Cell) :
    (nl.withCells cells).gates.toList.zipIdx =
      nl.gates.toList.zipIdx ++ along Cell.gates nl cells := by
  induction cells generalizing nl with
  | nil => simp [along]
  | cons cell rest inductionHypothesis =>
      have one : (nl.withCell cell).gates.toList.zipIdx =
          nl.gates.toList.zipIdx ++ cell.gates nl.size := by
        cases cell <;>
          simp [Netlist.withCell, Netlist.withHalfAdder, Netlist.withFullAdder, Netlist.push,
            Netlist.size, Cell.gates, List.zipIdx_append]
      have later := inductionHypothesis (nl.withCell cell)
      rw [one, List.append_assoc] at later
      exact later

/-- The wires that cells add are their outputs, the sums inside them and the carries inside them, each
once. -/
theorem fresh_perm (nl : Netlist) (cells : List Cell) :
    (along Cell.outputs nl cells ++ along Cell.partials nl cells ++ along Cell.carries nl cells).Perm
      (List.range' nl.size (cells.map Cell.size).sum) := by
  induction cells generalizing nl with
  | nil => exact .refl _
  | cons cell rest inductionHypothesis =>
      have first := cell.fresh_perm nl.size
      have later := inductionHypothesis (nl.withCell cell)
      rw [List.map_cons, List.sum_cons, ← List.range'_append_1, ← Netlist.size_withCell]
      refine List.Perm.trans ?_ (first.append later)
      rw [List.perm_iff_count]
      intro wire
      simp only [along, List.count_append]
      omega

/-! ### Nothing is lost or taken twice -/

theorem flatten_deposit_perm (wire : Nat) (columns : List (List Nat)) :
    (deposit wire columns).flatten.Perm (wire :: columns.flatten) := by
  cases columns with
  | nil => exact .refl _
  | cons column rest =>
      rw [deposit, List.flatten_cons, List.flatten_cons, List.append_assoc]
      exact List.perm_middle

/-- What a step finds in the columns and what its cell supplies is its bit, what its half adders take
and what it leaves in the columns. -/
theorem Step.supply_perm {before after : Stage} {bits : List (Nat × Nat)}
    (step : Step before bits after) :
    (before.columns.flatten ++ along Cell.outputs before.netlist before.cells ++
        along Cell.partials before.netlist before.cells).Perm
      (bits.map (·.2) ++ (along Cell.halves before.netlist before.cells).flatMap HalfAdder.operands ++
        after.columns.flatten) := by
  rw [List.perm_iff_count]
  intro wire
  cases step with
  | skip => simp [Stage.cells, along]
  | keep => simp [Stage.cells, along, List.count_cons]
  | half =>
      simp [Stage.cells, along, Cell.outputs, Cell.partials, Cell.halves, HalfAdder.operands,
        (flatten_deposit_perm _ _).count_eq, List.count_cons]
      omega
  | full =>
      simp [Stage.cells, along, Cell.outputs, Cell.partials, Cell.halves, HalfAdder.operands,
        (flatten_deposit_perm _ _).count_eq, List.count_cons]
      omega

/-- What a compression finds in the columns and what its cells supply are its bits, what its half
adders take and what it leaves in the columns. -/
theorem Trace.supply_perm {before after : Stage} {bits : List (Nat × Nat)} {cells : List Cell}
    (trace : Trace before bits cells after) :
    (before.columns.flatten ++ along Cell.outputs before.netlist cells ++
        along Cell.partials before.netlist cells).Perm
      (bits.map (·.2) ++ (along Cell.halves before.netlist cells).flatMap HalfAdder.operands ++
        after.columns.flatten) := by
  rw [List.perm_iff_count]
  intro wire
  induction trace with
  | refl stage => simp [along]
  | step head tail inductionHypothesis =>
      have first := head.supply_perm.count_eq wire
      rw [head.netlist_eq] at inductionHypothesis
      simp only [along_append, List.count_append, List.map_append, List.flatMap_append]
        at first inductionHypothesis ⊢
      omega

/-- The sums inside cells are taken by the half adders in them. -/
theorem partials_subset (nl : Netlist) (cells : List Cell) :
    along Cell.partials nl cells ⊆ (along Cell.halves nl cells).flatMap HalfAdder.operands := by
  induction cells generalizing nl with
  | nil => exact List.Subset.refl _
  | cons cell rest inductionHypothesis =>
      have inside : cell.partials nl.size ⊆ (cell.halves nl.size).flatMap HalfAdder.operands := by
        cases cell <;> simp [Cell.partials, Cell.halves, HalfAdder.operands]
      rw [along, along, List.flatMap_append]
      exact List.append_subset.mpr
        ⟨List.subset_append_of_subset_left _ inside,
          List.subset_append_of_subset_right _ (inductionHypothesis _)⟩

/-! ### The gates that use a wire -/

/-- A wire that is no carry inside a cell is used in it by the gates of the half adders that take it. -/
theorem Cell.users_eq {base wire : Nat} {cell : Cell} (other : wire ∉ cell.carries base) :
    (cell.gates base).filter (fun (gate, _) => wire ∈ gate.operands) =
      ((cell.halves base).filter fun half => wire ∈ half.operands).flatMap HalfAdder.gates := by
  cases cell with
  | half weight x y =>
      by_cases taken : wire ∈ [x, y] <;>
        simp_all [gates, halves, HalfAdder.operands, HalfAdder.gates, Gate.operands]
  | full weight x y z =>
      by_cases first : wire ∈ [x, y] <;> by_cases second : wire ∈ [base, z] <;>
        simp_all [gates, halves, carries, HalfAdder.operands, HalfAdder.gates, Gate.operands]

/-- A wire that is no carry inside a cell is used by the gates of the half adders that take it. -/
theorem users_along {nl : Netlist} {wire : Nat} {cells : List Cell}
    (other : wire ∉ along Cell.carries nl cells) :
    (nl.withCells cells).usersFrom nl.size wire =
      ((along Cell.halves nl cells).filter fun half => wire ∈ half.operands).flatMap
        HalfAdder.gates := by
  have added : (nl.withCells cells).gates.toList.zipIdx.drop nl.size = along Cell.gates nl cells := by
    have length : nl.gates.toList.zipIdx.length = nl.size := by simp [Netlist.size]
    rw [zipIdx_withCells, ← length, List.drop_left]
  rw [Netlist.usersFrom, added]
  clear added
  induction cells generalizing nl with
  | nil => rfl
  | cons cell rest inductionHypothesis =>
      rw [along, List.mem_append, not_or] at other
      rw [along, along, List.filter_append, List.filter_append, List.flatMap_append,
        Cell.users_eq other.1, inductionHypothesis other.2]

/-- A wire that half adders do not take is an operand of none. -/
theorem filter_halves_of_not_mem {halves : List HalfAdder} {wire : Nat}
    (never : wire ∉ halves.flatMap HalfAdder.operands) :
    halves.filter (fun half => wire ∈ half.operands) = [] := by
  rw [List.filter_eq_nil_iff]
  intro half member
  simpa using fun used => never (List.mem_flatMap.mpr ⟨half, member, used⟩)

/-- A wire that half adders take once is taken by one of them. -/
theorem filter_halves_of_count {halves : List HalfAdder} {wire : Nat}
    (once : (halves.flatMap HalfAdder.operands).count wire = 1) :
    ∃ half ∈ halves, halves.filter (fun half => wire ∈ half.operands) = [half] ∧
      half.operands.count wire = 1 := by
  induction halves with
  | nil => cases once
  | cons half rest inductionHypothesis =>
      rw [List.flatMap_cons, List.count_append] at once
      by_cases taken : wire ∈ half.operands
      · have some := List.count_pos_iff.mpr taken
        have later : wire ∉ rest.flatMap HalfAdder.operands :=
          List.count_eq_zero.mp (by omega)
        refine ⟨half, List.mem_cons_self, ?_, by omega⟩
        rw [List.filter_cons_of_pos (by simpa using taken), filter_halves_of_not_mem later]
      · have none : half.operands.count wire = 0 := List.count_eq_zero.mpr taken
        obtain ⟨other, member, alone, count⟩ := inductionHypothesis (by omega)
        refine ⟨other, List.mem_cons_of_mem _ member, ?_, count⟩
        rw [List.filter_cons_of_neg (by simpa using taken), alone]

/-! ### Wires are consumed once -/

/-- Wires that are placed in columns are consumed once each.  A bit is used by no gate that was added,
and a wire that is no bit is an operand of one half adder, once, and used by no other gates than its
two. -/
structure Consumption (start grown : Netlist) (placed bits : List Nat) (halves : List HalfAdder) :
    Prop where
  bits_nodup : bits.Nodup
  bits_placed : bits ⊆ placed
  consumed : ∀ wire ∈ placed,
    (bits.count wire = 1 ∧ grown.usersFrom start.size wire = []) ∨
      (wire ∉ bits ∧ ∃ half ∈ halves, grown.usersFrom start.size wire = half.gates ∧
        half.operands.count wire = 1)

/-- A compression of distinct wires to its end consumes once each the wires that it is given and the
sums and carries of its cells. -/
theorem Trace.consumption {before after : Stage} {bits : List (Nat × Nat)} {cells : List Cell}
    (trace : Trace before bits cells after) (empty : after.columns = [])
    (distinct : before.columns.flatten.Nodup) :
    Consumption before.netlist after.netlist
      (before.columns.flatten ++ along Cell.outputs before.netlist cells) (bits.map (·.2))
      (along Cell.halves before.netlist cells) := by
  have supply := trace.supply_perm
  rw [empty, List.flatten_nil, List.append_nil] at supply
  -- The wires that cells add are new and distinct, so none of them is supplied twice.
  have fresh := fresh_perm before.netlist cells
  have new : ∀ wire ∈ along Cell.outputs before.netlist cells ++
      along Cell.partials before.netlist cells ++ along Cell.carries before.netlist cells,
      before.netlist.size ≤ wire := by
    intro wire member
    exact (List.mem_range'_1.mp (fresh.mem_iff.mp member)).1
  have apart : (before.columns.flatten ++ (along Cell.outputs before.netlist cells ++
      along Cell.partials before.netlist cells ++ along Cell.carries before.netlist cells)).Nodup := by
    refine distinct.append (fresh.nodup_iff.mpr List.nodup_range') ?_
    intro wire old member
    obtain ⟨column, inside, place⟩ := List.mem_flatten.mp old
    exact absurd (before.has column inside wire place) (Nat.not_lt_of_le (new wire member))
  rw [← List.append_assoc, ← List.append_assoc] at apart
  have supplied := apart.of_append_left
  have taken := supply.nodup_iff.mp supplied
  refine ⟨taken.of_append_left, ?_, ?_⟩
  · intro wire bit
    have source := supply.mem_iff.mpr (List.mem_append_left _ bit)
    rcases List.mem_append.mp source with placed | inside
    · exact placed
    · exact absurd (partials_subset _ cells inside) (List.disjoint_of_nodup_append taken bit)
  · intro wire placed
    have once : (bits.map (·.2)).count wire +
        ((along Cell.halves before.netlist cells).flatMap HalfAdder.operands).count wire = 1 := by
      rw [← List.count_append, ← supply.count_eq]
      exact List.count_eq_one_of_mem supplied (List.mem_append_left _ placed)
    have free : wire ∉ along Cell.carries before.netlist cells :=
      List.disjoint_of_nodup_append apart (List.mem_append_left _ placed)
    rw [trace.netlist_eq, users_along free]
    by_cases bit : wire ∈ bits.map (·.2)
    · left
      have yielded := List.count_eq_one_of_mem taken.of_append_left bit
      have none : wire ∉ (along Cell.halves before.netlist cells).flatMap HalfAdder.operands :=
        List.count_eq_zero.mp (by omega)
      rw [filter_halves_of_not_mem none]
      exact ⟨yielded, rfl⟩
    · right
      rw [List.count_eq_zero.mpr bit, Nat.zero_add] at once
      obtain ⟨half, member, alone, count⟩ := filter_halves_of_count once
      refine ⟨bit, half, member, ?_, count⟩
      rw [alone, List.flatMap_cons, List.flatMap_nil, List.append_nil]

/-! ### What is placed in columns -/

/-- There is one step from a stage at most. -/
theorem Step.after_unique {before after other : Stage} {bits more : List (Nat × Nat)}
    (one : Step before bits after) (two : Step before more other) : after = other := by
  cases one <;> cases two <;> rfl

/-- A compression passes all stages that steps lead to, and builds the cells that are built until
there first. -/
theorem Trace.cells_prefix {before after last : Stage} {early bits : List (Nat × Nat)}
    {done cells : List Cell} (one : Trace before early done after)
    (two : Trace before bits cells last) (empty : last.columns = []) : done <+: cells := by
  induction one generalizing bits cells with
  | refl => exact List.nil_prefix
  | step head tail inductionHypothesis =>
      cases two with
      | refl => cases head <;> cases empty
      | step first later =>
          cases head.after_unique first
          exact (List.prefix_append_right_inj _).mpr (inductionHypothesis later)

/-- The wires that a step leaves in columns were there or are outputs of its cell. -/
theorem Step.columns_subset {before after : Stage} {bits : List (Nat × Nat)}
    (step : Step before bits after) :
    after.columns.flatten ⊆
      before.columns.flatten ++ along Cell.outputs before.netlist before.cells := by
  intro wire member
  cases step with
  | skip => simpa [Stage.cells, along] using member
  | keep => exact List.mem_append_left _ (List.mem_append_right _ member)
  | half =>
      rw [(flatten_deposit_perm _ _).mem_iff] at member
      simp only [Stage.cells, along, Cell.outputs, List.flatten_cons, List.append_nil, List.mem_append,
        List.mem_cons] at member ⊢
      rcases member with rfl | upper <;> simp [*]
  | full =>
      rw [List.flatten_cons, List.mem_append, (flatten_deposit_perm _ _).mem_iff] at member
      simp only [Stage.cells, along, Cell.outputs, List.flatten_cons, List.append_nil, List.mem_append,
        List.mem_cons] at member ⊢
      rcases member with ((stays | rfl | none) | rfl | upper) <;> simp_all

/-- The wires that a compression has in columns are the first ones and outputs of its cells. -/
theorem Trace.columns_subset {before after : Stage} {bits : List (Nat × Nat)} {cells : List Cell}
    (trace : Trace before bits cells after) :
    after.columns.flatten ⊆ before.columns.flatten ++ along Cell.outputs before.netlist cells := by
  induction trace with
  | refl stage => exact List.subset_append_left _ _
  | step head tail inductionHypothesis =>
      intro wire member
      rw [along_append, ← head.netlist_eq, ← List.append_assoc]
      rcases List.mem_append.mp (inductionHypothesis member) with early | late
      · exact List.mem_append_left _ (head.columns_subset early)
      · exact List.mem_append_right _ late

/-- At every stage that a compression passes on the way to its end, what stands in columns are the
first wires and outputs of the cells that it builds on the whole way. -/
theorem Trace.passed_subset {before after last : Stage} {early bits : List (Nat × Nat)}
    {done cells : List Cell} (one : Trace before early done after)
    (two : Trace before bits cells last) (empty : last.columns = []) :
    after.columns.flatten ⊆ before.columns.flatten ++ along Cell.outputs before.netlist cells := by
  obtain ⟨later, rfl⟩ := one.cells_prefix two empty
  rw [along_append, ← List.append_assoc]
  exact List.subset_append_of_subset_left _ one.columns_subset

end Compressor

end CarrySave
