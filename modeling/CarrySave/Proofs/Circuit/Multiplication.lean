/-
Module: CarrySave.Proofs.Circuit.Multiplication
Layer: Proofs
Purpose: Multiplication.  Each partial product copies its two bits before it multiplies them, and
  copies carry what was copied, so the columns of products are at settled levels the products
  along the diagonals, however often a bit has been copied.
Main exports: Netlist.Copies, partialProducts_computes, multiplier_computes,
  multiplier_outputs_product
-/
import CarrySave.Proofs.Circuit.Diagonals

namespace CarrySave

open Compressor

/-! ### Copies -/

/-- Existing wires that at settled levels carry what other wires carry. -/
structure Netlist.Copies (nl : Netlist) (wires copies : List Nat) : Prop where
  has : nl.Has copies
  length_eq : copies.length = wires.length
  levels_eq : ∀ level : Nat → Bool, nl.Settled level → copies.map level = wires.map level

namespace Netlist.Copies

theorem refl {nl : Netlist} {wires : List Nat} (has : nl.Has wires) : nl.Copies wires wires :=
  ⟨has, rfl, fun _ _ => rfl⟩

theorem trans {nl : Netlist} {wires copies again : List Nat} (first : nl.Copies wires copies)
    (second : nl.Copies copies again) : nl.Copies wires again := by
  refine ⟨second.has, second.length_eq.trans first.length_eq, ?_⟩
  intro level settled
  rw [second.levels_eq level settled, first.levels_eq level settled]

theorem grows {nl grown : Netlist} {wires copies : List Nat} (copied : nl.Copies wires copies)
    (growth : nl.Grows grown) : grown.Copies wires copies :=
  ⟨copied.has.grows growth, copied.length_eq,
    fun level settled => copied.levels_eq level (settled.of_grows growth)⟩

/-- A buffer may take the place of its source. -/
theorem buffer {nl : Netlist} {wires : List Nat} {index : Nat} (has : nl.Has wires)
    (below : index < wires.length) :
    (nl.push (.buffer wires[index])).Copies wires (wires.set index nl.size) := by
  have growth := (Netlist.Extends.buffer (has _ (List.getElem_mem below))).grows
  refine ⟨?_, List.length_set, ?_⟩
  · intro wire member
    rcases List.mem_or_eq_of_mem_set member with earlier | rfl
    · exact has.grows growth wire earlier
    · simp
  · intro level settled
    have inside : index < (wires.map level).length := by simpa using below
    have same : level nl.size = level wires[index] := (settled_push_iff.mp settled).2
    have carried : level nl.size = (wires.map level)[index] := by rw [same, List.getElem_map]
    rw [List.map_set, carried, List.set_getElem_self]

end Netlist.Copies

/-! ### Products of bits -/

/-- The bit at a place of some wires, as a number. -/
def bitAt (level : Nat → Bool) (wires : List Nat) (place : Nat) : Int :=
  bitValue ((wires.map level).getD place false)

theorem bitAt_eq {level : Nat → Bool} {wires : List Nat} {place : Nat}
    (below : place < wires.length) : bitAt level wires place = bitValue (level wires[place]) := by
  simp [bitAt, below]

/-- Wires make the sum of their bits at the weights of their places. -/
theorem numberOn_eq_sum (level : Nat → Bool) (wires : List Nat) :
    numberOn level wires =
      ((List.range wires.length).map fun place => bitAt level wires place * 2 ^ place).sum := by
  induction wires with
  | nil => rfl
  | cons wire rest inductionHypothesis =>
      have above : ∀ place, bitAt level (wire :: rest) (place + 1) * 2 ^ (place + 1) =
          2 * (bitAt level rest place * 2 ^ place) := by
        intro place
        rw [pow_succ]
        simp only [bitAt, List.map_cons, List.getD_cons_succ]
        ring
      rw [numberOn_cons, List.length_cons, List.range_succ_eq_map, List.map_cons, List.sum_cons,
        List.map_map, inductionHypothesis, ← List.sum_map_mul_left]
      simp only [Function.comp_def, Nat.succ_eq_add_one, above]
      simp [bitAt]

theorem bitAt_copies {nl : Netlist} {wires copies : List Nat} {level : Nat → Bool}
    (copied : nl.Copies wires copies) (settled : nl.Settled level) (place : Nat) :
    bitAt level copies place = bitAt level wires place := by
  rw [bitAt, copied.levels_eq level settled, bitAt]

/-- The netlist in which two wires have been copied and the copies multiplied. -/
def Netlist.withProduct (nl : Netlist) (x y : Nat) : Netlist :=
  ((nl.push (.buffer x)).push (.buffer y)).push (.logic .and nl.size (nl.size + 1))

/-- A partial product of existing bits is built without fail. -/
theorem run_partialProduct {nl : Netlist} {a b : List Nat} {i j : Nat} (hasA : nl.Has a)
    (hasB : nl.Has b) (belowA : i < a.length) (belowB : j < b.length) :
    (partialProduct ⟨a.map .wire, b.map .wire⟩ i j).run nl =
      .ok (nl.size + 2, ⟨(a.set i nl.size).map .wire, (b.set j (nl.size + 1)).map .wire⟩)
        (nl.withProduct a[i] b[j]) := by
  have copyX := Builder.run_buffer (hasA _ (List.getElem_mem belowA))
  have copyY : (Builder.buffer (.wire b[j])).run (nl.push (.buffer a[i])) = _ :=
    Builder.run_buffer (Nat.lt_trans (hasB _ (List.getElem_mem belowB)) (by simp))
  have product : (Builder.logic .and (.wire nl.size) (.wire (nl.size + 1))).run
      ((nl.push (.buffer a[i])).push (.buffer b[j])) = _ :=
    Builder.run_logic .and (by simp only [Netlist.size_push]; omega) (by simp)
  simp only [partialProduct, List.getElem?_map, List.getElem?_eq_getElem belowA,
    List.getElem?_eq_getElem belowB, Option.map_some, EStateM.run_bind, copyX, copyY,
    Netlist.size_push, product, EStateM.run_pure, List.map_set, Netlist.withProduct]

/-- At settled levels a partial product is the product of its bits, and the copies may take the
place of the bits. -/
theorem withProduct_spec {nl : Netlist} {a b : List Nat} {i j : Nat} (hasA : nl.Has a)
    (hasB : nl.Has b) (belowA : i < a.length) (belowB : j < b.length) :
    nl.Extends (nl.withProduct a[i] b[j]) ∧
      (nl.withProduct a[i] b[j]).Copies a (a.set i nl.size) ∧
      (nl.withProduct a[i] b[j]).Copies b (b.set j (nl.size + 1)) ∧
      ∀ level : Nat → Bool, (nl.withProduct a[i] b[j]).Settled level →
        bitValue (level (nl.size + 2)) = bitAt level a i * bitAt level b j := by
  have xBelow : a[i] < nl.size := hasA _ (List.getElem_mem belowA)
  have yBelow : b[j] < (nl.push (.buffer a[i])).size := by
    rw [Netlist.size_push]
    exact Nat.lt_succ_of_lt (hasB _ (List.getElem_mem belowB))
  have first := Netlist.Extends.buffer xBelow
  have second := Netlist.Extends.buffer yBelow
  have third : ((nl.push (.buffer a[i])).push (.buffer b[j])).Extends
      (nl.withProduct a[i] b[j]) :=
    .logic .and (by simp only [Netlist.size_push]; omega) (by simp)
  have copiedA := Netlist.Copies.buffer hasA belowA
  have copiedB := Netlist.Copies.buffer (hasB.grows first.grows) belowB
  refine ⟨first.trans (second.trans third), copiedA.grows (second.trans third).grows, ?_, ?_⟩
  · rw [Netlist.size_push] at copiedB
    exact copiedB.grows third.grows
  · intro level settled
    obtain ⟨copies, product⟩ := Netlist.settled_push_iff.mp settled
    obtain ⟨copyOnly, copyY⟩ := Netlist.settled_push_iff.mp copies
    obtain ⟨-, copyX⟩ := Netlist.settled_push_iff.mp copyOnly
    simp only [Gate.Settled, Netlist.size_push, Op.apply] at copyX copyY product
    rw [product, copyX, copyY, bitAt_eq belowA, bitAt_eq belowB]
    cases level a[i] <;> cases level b[j] <;> rfl

/-! ### Columns of products -/

/-- The product of the bits at a pair of places. -/
def productAt (level : Nat → Bool) (a b : List Nat) (pair : Nat × Nat) : Int :=
  bitAt level a pair.1 * bitAt level b pair.2

theorem productAt_copies {nl : Netlist} {a copiesA b copiesB : List Nat} {level : Nat → Bool}
    (copiedA : nl.Copies a copiesA) (copiedB : nl.Copies b copiesB) (settled : nl.Settled level) :
    productAt level copiesA copiesB = productAt level a b := by
  funext pair
  rw [productAt, bitAt_copies copiedA settled, bitAt_copies copiedB settled, productAt]

/-- All pairs are places of bits of two operands. -/
def Inside (a b : List Nat) (pairs : List (Nat × Nat)) : Prop :=
  ∀ pair ∈ pairs, pair.1 < a.length ∧ pair.2 < b.length

theorem Inside.copies {nl : Netlist} {a copiesA b copiesB : List Nat} {pairs : List (Nat × Nat)}
    (inside : Inside a b pairs) (copiedA : nl.Copies a copiesA) (copiedB : nl.Copies b copiesB) :
    Inside copiesA copiesB pairs := by
  intro pair member
  rw [copiedA.length_eq, copiedB.length_eq]
  exact inside pair member

/-- The products along a diagonal are the first of them and those that follow on it. -/
theorem run_diagonalProducts_cons {operands next last : Operands} {i j wire : Nat}
    {rest : List (Nat × Nat)} {column : List Nat} {nl middle grown : Netlist}
    (first : (partialProduct operands i j).run nl = .ok (wire, next) middle)
    (later : (diagonalProducts next rest).run middle = .ok (column.map .wire, last) grown) :
    (diagonalProducts operands ((i, j) :: rest)).run nl =
      .ok ((wire :: column).map .wire, last) grown := by
  simp only [diagonalProducts, EStateM.run_bind, first, later, EStateM.run_pure, List.map_cons]

/-- The products along a diagonal of existing bits never fail to be built, and copies of the
operands come with them. -/
theorem diagonalProducts_computes {nl : Netlist} {a b : List Nat} {pairs : List (Nat × Nat)}
    (hasA : nl.Has a) (hasB : nl.Has b) (inside : Inside a b pairs) :
    ∃ (column copiesA copiesB : List Nat) (grown : Netlist),
      (diagonalProducts ⟨a.map .wire, b.map .wire⟩ pairs).run nl =
        .ok (column.map .wire, ⟨copiesA.map .wire, copiesB.map .wire⟩) grown ∧
      nl.Extends grown ∧ grown.Copies a copiesA ∧ grown.Copies b copiesB ∧ grown.Has column ∧
      column.length = pairs.length ∧
      ∀ level : Nat → Bool, grown.Settled level →
        column.map (bitValue ∘ level) = pairs.map (productAt level a b) := by
  induction pairs generalizing nl a b with
  | nil =>
      exact ⟨[], a, b, nl, rfl, .refl nl, .refl hasA, .refl hasB, nl.has_nil, rfl, fun _ _ => rfl⟩
  | cons pair rest inductionHypothesis =>
      obtain ⟨i, j⟩ := pair
      obtain ⟨⟨belowA, belowB⟩, others⟩ := List.forall_mem_cons.mp inside
      have insideRest : Inside a b rest := others
      obtain ⟨extended, copiedA, copiedB, product⟩ := withProduct_spec hasA hasB belowA belowB
      obtain ⟨column, copiesA, copiesB, grown, runs, further, againA, againB, has, count, values⟩ :=
        inductionHypothesis copiedA.has copiedB.has (insideRest.copies copiedA copiedB)
      have below : nl.size + 2 < (nl.withProduct a[i] b[j]).size := by simp [Netlist.withProduct]
      have first := run_partialProduct hasA hasB belowA belowB
      refine ⟨(nl.size + 2) :: column, copiesA, copiesB, grown,
        run_diagonalProducts_cons first runs, extended.trans further,
        (copiedA.grows further.grows).trans againA, (copiedB.grows further.grows).trans againB,
        Netlist.has_cons_iff.mpr ⟨Nat.lt_of_lt_of_le below further.grows.size_le, has⟩,
        by simp [count], ?_⟩
      intro level settled
      have before := settled.of_grows further.grows
      rw [List.map_cons, values level settled, productAt_copies copiedA copiedB before,
        List.map_cons, Function.comp_apply, product level before]
      rfl

/-- The columns of products are those of the first diagonal and of the others. -/
theorem run_partialProducts_cons {operands next : Operands} {pairs : List (Nat × Nat)}
    {rest : List (List (Nat × Nat))} {column : List Nat} {columns : List (List Nat)}
    {nl middle grown : Netlist}
    (first : (diagonalProducts operands pairs).run nl = .ok (column.map .wire, next) middle)
    (later : (partialProducts next rest).run middle = .ok (references columns) grown) :
    (partialProducts operands (pairs :: rest)).run nl =
      .ok (references (column :: columns)) grown := by
  simp only [partialProducts, EStateM.run_bind, first, later, EStateM.run_pure, references_cons]

/-- The columns of products of existing bits never fail to be built. -/
theorem partialProducts_computes {nl : Netlist} {a b : List Nat} {array : List (List (Nat × Nat))}
    (hasA : nl.Has a) (hasB : nl.Has b) (inside : ∀ pairs ∈ array, Inside a b pairs) :
    ∃ (columns : List (List Nat)) (grown : Netlist),
      (partialProducts ⟨a.map .wire, b.map .wire⟩ array).run nl = .ok (references columns) grown ∧
      nl.Extends grown ∧ (∀ column ∈ columns, grown.Has column) ∧
      columns.map List.length = array.map List.length ∧
      ∀ level : Nat → Bool, grown.Settled level →
        columns.map (·.map (bitValue ∘ level)) = array.map (·.map (productAt level a b)) := by
  induction array generalizing nl a b with
  | nil => exact ⟨[], nl, rfl, .refl nl, by simp, rfl, fun _ _ => rfl⟩
  | cons pairs rest inductionHypothesis =>
      obtain ⟨insideFirst, insideRest⟩ := List.forall_mem_cons.mp inside
      obtain ⟨column, copiesA, copiesB, middle, first, extended, copiedA, copiedB, has, height,
        values⟩ := diagonalProducts_computes hasA hasB insideFirst
      obtain ⟨columns, grown, runs, further, hasColumns, heights, valuesAbove⟩ :=
        inductionHypothesis copiedA.has copiedB.has fun pairs member =>
          (insideRest pairs member).copies copiedA copiedB
      refine ⟨column :: columns, grown, run_partialProducts_cons first runs,
        extended.trans further, List.forall_mem_cons.mpr ⟨has.grows further.grows, hasColumns⟩,
        by rw [List.map_cons, List.map_cons, height, heights], ?_⟩
      intro level settled
      have before := settled.of_grows further.grows
      rw [List.map_cons, values level before, valuesAbove level settled,
        productAt_copies copiedA copiedB before, List.map_cons]

/-! ### The multiplier -/

theorem inside_diagonals (a b : List Nat) :
    ∀ pairs ∈ diagonals a.length b.length, Inside a b pairs := by
  intro pairs member pair place
  obtain ⟨d, -, rfl⟩ := List.mem_map.mp member
  obtain ⟨belowA, belowB, -⟩ := mem_diagonal_iff.mp place
  exact ⟨belowA, belowB⟩

/-- A multiplier builds the columns of products of all diagonals and compresses them. -/
theorem run_multiplier {a b : List Nat} {columns : List (List Nat)} {outputs : List Datum}
    {nl array grown : Netlist}
    (products : (partialProducts ⟨a.map .wire, b.map .wire⟩ (diagonals a.length b.length)).run nl =
      .ok (references columns) array)
    (compressed : (compress (references columns)).run array = .ok outputs grown) :
    (multiplier (a.map .wire) (b.map .wire)).run nl = .ok outputs grown := by
  simp only [multiplier, List.length_map, EStateM.run_bind, products, compressed]

/-- A multiplier of existing wires computes the product of the numbers that they make. -/
theorem multiplier_computes {nl : Netlist} {a b : List Nat} (hasA : nl.Has a) (hasB : nl.Has b) :
    (multiplier (a.map .wire) (b.map .wire)).Computes nl
      (if min a.length b.length = 0 then 0
        else if min a.length b.length = 1 then a.length + b.length - 1
        else a.length + b.length)
      fun level => numberOn level a * numberOn level b := by
  obtain ⟨columns, middle, first, extended, has, heights, values⟩ :=
    partialProducts_computes hasA hasB (inside_diagonals a b)
  obtain ⟨outputs, grown, runs, further, hasOutputs, count, numbers⟩ :=
    compress_gapless has (gapless_of_heights heights)
  refine ⟨outputs, grown, run_multiplier first runs, extended.trans further, hasOutputs, ?_, ?_⟩
  · rw [count, size_capacity_of_diagonals heights]
  · intro level settled
    have products := values level (settled.of_grows further.grows)
    calc numberOn level outputs
        = worth (bitValue ∘ level) 0 columns := numbers level settled
      _ = numberOn level a * numberOn level b := by
          rw [numberOn_eq_sum level a, numberOn_eq_sum level b]
          exact worth_of_diagonals products

/-- The multiplier is correct at every width.  On existing wires it never fails, and whatever
bytes the inputs are given, its outputs, as many as the bits of both operands unless one of them
has fewer than two, make the product of the operands.  A circuit that multiplies integers
multiplies them modulo the powers of two that its widths say. -/
theorem multiplier_outputs_product :
    (∀ (nl : Netlist) (a b : List Nat), nl.Reachable → nl.Has a → nl.Has b →
      ∃ (outputs : List Nat) (grown : Netlist),
        (multiplier (a.map .wire) (b.map .wire)).run nl = .ok (outputs.map .wire) grown ∧
        grown.Has outputs ∧
        outputs.length = (if min a.length b.length = 0 then 0
          else if min a.length b.length = 1 then a.length + b.length - 1
          else a.length + b.length) ∧
        ∀ assignment : Assignment, assignment.Covers nl →
          ∃ x y : Int, grown.run assignment (a.map .wire) = .ok (.one x) ∧
            grown.run assignment (b.map .wire) = .ok (.one y) ∧
            grown.run assignment (outputs.map .wire) = .ok (.one (x * y))) ∧
    (∀ (m n : Nat) (x y : Int),
      (Design.multiplier m n).compute [.one x, .one y] =
        .ok (.one ((x % 2 ^ m) * (y % 2 ^ n)))) := by
  refine ⟨?_, ?_⟩
  · intro nl a b reachable hasA hasB
    obtain ⟨outputs, grown, runs, -, has, count, evaluates⟩ :=
      (multiplier_computes hasA hasB).outputs_eq reachable.ordered
    refine ⟨outputs, grown, runs, has, count, ?_⟩
    intro assignment covers
    obtain ⟨level, -, product, earlier⟩ := evaluates assignment covers
    exact ⟨_, _, earlier a hasA, earlier b hasB, product⟩
  · intro m n x y
    have computes : ∀ (nl : Netlist) (a b : List Nat), nl.Has a → nl.Has b → a.length = m →
        b.length = n → (multiplier (a.map .wire) (b.map .wire)).Computes nl
          (if min m n = 0 then 0 else if min m n = 1 then m + n - 1 else m + n)
          fun level => numberOn level a * numberOn level b := by
      rintro nl a b hasA hasB rfl rfl
      exact multiplier_computes hasA hasB
    exact Design.compute_two multiplier (· * ·) rfl computes x y

/-- Operands that share wires and repeat one, and two integers that do not fit into the bits of
their operands. -/
theorem multiplier_outputs_product_threeInputs :
    (threeInputs.Has [0, 2, 1] ∧ threeInputs.Has [2, 2] ∧ threeBytes.Covers threeInputs ∧
      ∃ (outputs : List Nat) (grown : Netlist) (x y : Int),
        (multiplier [.wire 0, .wire 2, .wire 1] [.wire 2, .wire 2]).run threeInputs =
          .ok (outputs.map .wire) grown ∧
        outputs.length = 5 ∧
        grown.run threeBytes (outputs.map .wire) = .ok (.one (x * y))) ∧
    (Design.multiplier 3 2).compute [.one (-1), .one 6] = .ok (.one 14) := by
  obtain ⟨multiplies, circuit⟩ := multiplier_outputs_product
  have hasA : threeInputs.Has [0, 2, 1] := by decide
  have hasB : threeInputs.Has [2, 2] := by decide
  obtain ⟨outputs, grown, runs, -, count, evaluates⟩ :=
    multiplies threeInputs [0, 2, 1] [2, 2] threeInputs_reachable hasA hasB
  obtain ⟨x, y, -, -, product⟩ := evaluates threeBytes threeBytes_covers
  refine ⟨⟨hasA, hasB, threeBytes_covers, outputs, grown, x, y, runs, count, product⟩, ?_⟩
  exact circuit 3 2 (-1) 6

end CarrySave
