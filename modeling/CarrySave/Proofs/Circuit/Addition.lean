/-
Module: CarrySave.Proofs.Circuit.Addition
Layer: Proofs
Purpose: Addition.  The columns of an adder hold the two bits of each weight, so they are worth
  the sum of the operands, and two set bits in each column are worth two less than a power of
  two.
Main exports: adder_computes, adder_outputs_sum
-/
import CarrySave.Proofs.Circuit.Heights

namespace CarrySave

open Compressor

/-! ### Columns of two wires -/

/-- The columns of an adder, which hold the two wires of each weight. -/
def pairColumns (a b : List Nat) : List (List Nat) :=
  List.zipWith (fun x y => [x, y]) a b

theorem references_pairColumns (a b : List Nat) :
    references (pairColumns a b) =
      List.zipWith (fun x y => [x, y]) (a.map Datum.wire) (b.map Datum.wire) := by
  simp [references, pairColumns, List.zipWith_map, List.map_zipWith]

theorem has_pairColumns {nl : Netlist} {a b : List Nat} (hasA : nl.Has a) (hasB : nl.Has b) :
    ∀ column ∈ pairColumns a b, nl.Has column := by
  induction a generalizing b with
  | nil => simp [pairColumns]
  | cons x a inductionHypothesis =>
      cases b with
      | nil => simp [pairColumns]
      | cons y b =>
          obtain ⟨hasX, hasA⟩ := Netlist.has_cons_iff.mp hasA
          obtain ⟨hasY, hasB⟩ := Netlist.has_cons_iff.mp hasB
          refine List.forall_mem_cons.mpr ⟨?_, inductionHypothesis hasA hasB⟩
          exact Netlist.has_cons_iff.mpr ⟨hasX, Netlist.has_cons_iff.mpr ⟨hasY, nl.has_nil⟩⟩

theorem pairColumns_ne_nil (a b : List Nat) : ∀ column ∈ pairColumns a b, column ≠ [] := by
  intro column member
  obtain ⟨index, below, rfl⟩ := List.mem_iff_getElem.mp member
  simp [pairColumns]

/-- Columns of two wires are worth the sum of the numbers that the wires make. -/
theorem worth_pairColumns {a b : List Nat} (level : Nat → Bool) (lowest : Nat)
    (same : a.length = b.length) :
    worth (bitValue ∘ level) lowest (pairColumns a b) =
      (numberOn level a + numberOn level b) * 2 ^ lowest := by
  induction a generalizing b lowest with
  | nil =>
      obtain rfl := List.length_eq_zero_iff.mp same.symm
      simp [pairColumns]
  | cons x a inductionHypothesis =>
      cases b with
      | nil => simp at same
      | cons y b =>
          have above := inductionHypothesis (lowest + 1) (Nat.succ.inj same)
          simp only [pairColumns, List.zipWith_cons_cons, worth_cons, List.map_cons, List.map_nil,
            List.sum_cons, List.sum_nil, Function.comp_apply, numberOn_cons] at above ⊢
          rw [above, pow_succ]
          ring

/-- Two set wires in each column are worth two less than a power of two. -/
theorem capacity_pairColumns {a b : List Nat} (same : a.length = b.length) :
    capacity (pairColumns a b) + 2 = 2 ^ (a.length + 1) := by
  induction a generalizing b with
  | nil =>
      obtain rfl := List.length_eq_zero_iff.mp same.symm
      simp [pairColumns, capacity]
  | cons x a inductionHypothesis =>
      cases b with
      | nil => simp at same
      | cons y b =>
          have above := inductionHypothesis (Nat.succ.inj same)
          simp only [pairColumns, List.zipWith_cons_cons, capacity, List.length_cons,
            List.length_nil] at above ⊢
          rw [pow_succ]
          omega

theorem size_capacity_pairColumns {a b : List Nat} (same : a.length = b.length) :
    (capacity (pairColumns a b)).size = if a.length = 0 then 0 else a.length + 1 := by
  have total := capacity_pairColumns same
  split
  · rename_i empty
    have none : capacity (pairColumns a b) = 0 := by
      rw [empty] at total
      omega
    rw [none, Nat.size_zero]
  · rename_i nonempty
    have double : 2 ^ (a.length + 1) = 2 * 2 ^ a.length := pow_succ' 2 a.length
    have enough : 2 ^ 1 ≤ 2 ^ a.length := Nat.pow_le_pow_right (by decide) (by omega)
    exact size_eq_succ (by omega) (by omega)

/-! ### The adder -/

/-- An adder of operands of the same width compresses the columns of their bits. -/
theorem adder_eq_compress {a b : List Nat} (same : a.length = b.length) :
    adder (a.map .wire) (b.map .wire) = compress (references (pairColumns a b)) := by
  rw [adder, if_pos (by simp [same]), references_pairColumns]

/-- An adder of existing wires computes the sum of the numbers that they make. -/
theorem adder_computes {nl : Netlist} {a b : List Nat} (hasA : nl.Has a) (hasB : nl.Has b)
    (same : a.length = b.length) :
    (adder (a.map .wire) (b.map .wire)).Computes nl (if a.length = 0 then 0 else a.length + 1)
      fun level => numberOn level a + numberOn level b := by
  have compressed := compress_gapless (has_pairColumns hasA hasB)
    (gapless_of_ne_nil (pairColumns_ne_nil a b))
  simp only [worth_pairColumns _ _ same, pow_zero, mul_one, size_capacity_pairColumns same]
    at compressed
  rw [adder_eq_compress same]
  exact compressed

/-- An adder is refused operands of different widths before it builds anything. -/
theorem adder_unequal {a b : List Datum} (different : a.length ≠ b.length) (nl : Netlist) :
    (adder a b).run nl = .error (.unequalWidths a.length b.length) nl := by
  rw [adder, if_neg different]
  rfl

/-- The adder is correct at every width.  On existing wires it never fails, and whatever bytes
the inputs are given, its outputs, one more than the bits of an operand, make the sum of the
operands.  Operands of different widths are refused.  A circuit that adds integers adds
them modulo the power of two that its width says. -/
theorem adder_outputs_sum :
    (∀ (nl : Netlist) (a b : List Nat), nl.Reachable → nl.Has a → nl.Has b →
      a.length = b.length →
      ∃ (outputs : List Nat) (grown : Netlist),
        (adder (a.map .wire) (b.map .wire)).run nl = .ok (outputs.map .wire) grown ∧
        grown.Has outputs ∧
        outputs.length = (if a.length = 0 then 0 else a.length + 1) ∧
        ∀ assignment : Assignment, assignment.Covers nl →
          ∃ x y : Int, grown.run assignment (a.map .wire) = .ok (.one x) ∧
            grown.run assignment (b.map .wire) = .ok (.one y) ∧
            grown.run assignment (outputs.map .wire) = .ok (.one (x + y))) ∧
    (∀ (nl : Netlist) (a b : List Datum), a.length ≠ b.length →
      (adder a b).run nl = .error (.unequalWidths a.length b.length) nl ∧
      (Error.unequalWidths a.length b.length).cls = .badRequest) ∧
    (∀ (n : Nat) (x y : Int),
      (Design.adder n).compute [.one x, .one y] = .ok (.one (x % 2 ^ n + y % 2 ^ n))) := by
  refine ⟨?_, ?_, ?_⟩
  · intro nl a b reachable hasA hasB same
    obtain ⟨outputs, grown, runs, -, has, count, evaluates⟩ :=
      (adder_computes hasA hasB same).outputs_eq reachable.ordered
    refine ⟨outputs, grown, runs, has, count, ?_⟩
    intro assignment covers
    obtain ⟨level, -, sum, earlier⟩ := evaluates assignment covers
    exact ⟨_, _, earlier a hasA, earlier b hasB, sum⟩
  · intro nl a b different
    exact ⟨adder_unequal different nl, rfl⟩
  · intro n x y
    have computes : ∀ (nl : Netlist) (a b : List Nat), nl.Has a → nl.Has b → a.length = n →
        b.length = n → (adder (a.map .wire) (b.map .wire)).Computes nl
          (if n = 0 then 0 else n + 1) fun level => numberOn level a + numberOn level b := by
      rintro nl a b hasA hasB rfl widthB
      exact adder_computes hasA hasB widthB.symm
    exact Design.compute_two adder (· + ·) rfl computes x y

/-- Operands that share a wire and repeat one, operands of different widths, and two integers
that do not fit into three bits. -/
theorem adder_outputs_sum_threeInputs :
    (threeInputs.Has [0, 2] ∧ threeInputs.Has [2, 2] ∧ threeBytes.Covers threeInputs ∧
      ∃ (outputs : List Nat) (grown : Netlist) (x y : Int),
        (adder [.wire 0, .wire 2] [.wire 2, .wire 2]).run threeInputs =
          .ok (outputs.map .wire) grown ∧
        outputs.length = 3 ∧
        grown.run threeBytes (outputs.map .wire) = .ok (.one (x + y))) ∧
    (adder [.wire 0] []).run threeInputs = .error (.unequalWidths 1 0) threeInputs ∧
    (Design.adder 3).compute [.one 9, .one (-1)] = .ok (.one 8) := by
  obtain ⟨adds, refuses, circuit⟩ := adder_outputs_sum
  have hasA : threeInputs.Has [0, 2] := by decide
  have hasB : threeInputs.Has [2, 2] := by decide
  obtain ⟨outputs, grown, runs, -, count, evaluates⟩ :=
    adds threeInputs [0, 2] [2, 2] threeInputs_reachable hasA hasB rfl
  obtain ⟨x, y, -, -, sum⟩ := evaluates threeBytes threeBytes_covers
  refine ⟨⟨hasA, hasB, threeBytes_covers, outputs, grown, x, y, runs, count, sum⟩, ?_, ?_⟩
  · exact (refuses threeInputs [.wire 0] [] (by decide)).1
  · exact circuit 3 9 (-1)

end CarrySave
