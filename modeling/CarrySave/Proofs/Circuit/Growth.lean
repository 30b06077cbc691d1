/-
Module: CarrySave.Proofs.Circuit.Growth
Layer: Proofs
Purpose: Everything that builds only makes a netlist grow, whatever it is given and also when
  it fails: single gates, cells, compressions paused or drained, and the arithmetic circuits.
Main exports: Builder.growing_append, Compressor.growing_next, Compressor.growing_drain,
  growing_compress, growing_makeInputs, growing_adder, growing_popcount, growing_multiplier
-/
import CarrySave.Circuit.Operator
import CarrySave.Proofs.Netlist.Growth

namespace CarrySave

/-! ### Single gates -/

namespace Builder

theorem growing_input (label : String) : Growing (input label) := by
  apply growing_mint
  intro nl gate described
  cases described
  simp [Gate.operands]

theorem growing_buffer (source : Datum) : Growing (buffer source) := by
  apply growing_mint
  intro nl gate described
  cases resolved : nl.resolve source with
  | error error => simp [resolved, bind, Except.bind] at described
  | ok wire =>
      simp only [resolved, bind, Except.bind, pure, Except.pure] at described
      cases described
      simpa [Gate.operands] using ((nl.resolve_eq_ok_iff source wire).mp resolved).2

theorem growing_logic (op : Op) (a b : Datum) : Growing (logic op a b) := by
  apply growing_mint
  intro nl gate described
  cases resolvedA : nl.resolve a with
  | error error => simp [resolvedA, bind, Except.bind] at described
  | ok x =>
      cases resolvedB : nl.resolve b with
      | error error => simp [resolvedA, resolvedB, bind, Except.bind] at described
      | ok y =>
          simp only [resolvedA, resolvedB, bind, Except.bind, pure, Except.pure] at described
          cases described
          have xBelow := ((nl.resolve_eq_ok_iff a x).mp resolvedA).2
          have yBelow := ((nl.resolve_eq_ok_iff b y).mp resolvedB).2
          simpa [Gate.operands] using And.intro xBelow yBelow

theorem growing_gate (op a b : Datum) : Growing (gate op a b) := by
  cases op with
  | op known => exact growing_logic known a b
  | _ => exact moves_throw _

theorem growing_append (opOrLabel : Datum) (operands : List Datum) :
    Growing (append opOrLabel operands) := by
  match operands with
  | [] => exact growing_input _
  | [source] => exact growing_buffer source
  | [a, b] => exact growing_gate _ a b
  | _ :: _ :: _ :: _ => exact moves_throw _

theorem growing_inputs (labels : List String) : Growing (inputs labels) := by
  unfold inputs
  induction labels with
  | nil => exact moves_pure _
  | cons label rest inductionHypothesis =>
      rw [List.mapM_cons]
      exact moves_bind (growing_input label) fun _ =>
        moves_bind inductionHypothesis fun _ => moves_pure _

end Builder

open Builder

/-! ### Cells -/

theorem growing_halfAdder (x y : Datum) : Growing (halfAdder x y) :=
  moves_bind (growing_logic .xor x y) fun _ =>
    moves_bind (growing_logic .and x y) fun _ => moves_pure _

theorem growing_fullAdder (x y z : Datum) : Growing (fullAdder x y z) :=
  moves_bind (growing_halfAdder x y) fun _ =>
    moves_bind (growing_halfAdder _ z) fun _ =>
      moves_bind (growing_logic .or _ _) fun _ => moves_pure _

/-! ### Compressions -/

namespace Compressor

theorem growing_nextFrom (weight : Nat) (columns : List (List Datum)) :
    Growing (nextFrom weight columns) := by
  induction weight, columns using nextFrom.induct with
  | case1 weight =>
      rw [nextFrom]
      exact moves_pure _
  | case2 weight rest inductionHypothesis =>
      rw [nextFrom]
      exact moves_bind inductionHypothesis fun _ => moves_pure _
  | case3 weight x rest =>
      rw [nextFrom]
      exact moves_pure _
  | case4 weight x y rest =>
      rw [nextFrom]
      exact moves_bind (growing_halfAdder x y) fun _ => moves_pure _
  | case5 weight x y z more rest inductionHypothesis =>
      rw [nextFrom]
      exact moves_bind (growing_fullAdder x y z) fun cell =>
        moves_bind (inductionHypothesis cell.1 cell.2) fun _ => moves_pure _

theorem growing_next (compressor : Compressor) : Growing compressor.next :=
  growing_nextFrom compressor.weight compressor.columns

theorem growing_drain (compressor : Compressor) : Growing compressor.drain := by
  induction compressor using drain.induct with
  | case1 compressor inductionHypothesis =>
      rw [drain]
      apply moves_bind compressor.growing_next
      intro outcome
      cases outcome with
      | ended weight => exact moves_pure _
      | bit weight wire rest less =>
          exact moves_bind (inductionHypothesis rest less) fun _ => moves_pure _

end Compressor

theorem growing_compressColumns (columns : List (List Datum)) :
    Growing (compressColumns columns) :=
  moves_bind (Compressor.growing_drain _) fun _ => moves_pure _

theorem growing_compress (columns : List (List Datum)) : Growing (compress columns) :=
  moves_bind (growing_compressColumns columns) fun _ => moves_pure _

/-! ### Arithmetic circuits -/

theorem growing_makeInputs (label : String) (count : Int) : Growing (makeInputs label count) := by
  unfold makeInputs
  split
  · exact moves_throw _
  · exact growing_inputs _

theorem growing_adder (a b : List Datum) : Growing (adder a b) := by
  unfold adder
  split
  · exact growing_compress _
  · exact moves_throw _

theorem growing_popcount (bits : List Datum) : Growing (popcount bits) :=
  growing_compress [bits]

theorem growing_partialProduct (operands : Operands) (i j : Nat) :
    Growing (partialProduct operands i j) := by
  unfold partialProduct
  split
  · exact moves_bind (growing_buffer _) fun _ =>
      moves_bind (growing_buffer _) fun _ =>
        moves_bind (growing_logic .and _ _) fun _ => moves_pure _
  · exact moves_throw _

theorem growing_diagonalProducts (operands : Operands) (pairs : List (Nat × Nat)) :
    Growing (diagonalProducts operands pairs) := by
  induction pairs generalizing operands with
  | nil => exact moves_pure _
  | cons pair rest inductionHypothesis =>
      exact moves_bind (growing_partialProduct operands pair.1 pair.2) fun product =>
        moves_bind (inductionHypothesis product.2) fun _ => moves_pure _

theorem growing_partialProducts (operands : Operands) (diagonals : List (List (Nat × Nat))) :
    Growing (partialProducts operands diagonals) := by
  induction diagonals generalizing operands with
  | nil => exact moves_pure _
  | cons pairs rest inductionHypothesis =>
      exact moves_bind (growing_diagonalProducts operands pairs) fun products =>
        moves_bind (inductionHypothesis products.2) fun _ => moves_pure _

theorem growing_multiplier (a b : List Datum) : Growing (multiplier a b) :=
  moves_bind (growing_partialProducts ⟨a, b⟩ _) fun _ => growing_compress _

end CarrySave
