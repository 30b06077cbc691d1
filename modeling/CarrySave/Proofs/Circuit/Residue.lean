/-
Module: CarrySave.Proofs.Circuit.Residue
Layer: Proofs
Purpose: What a refused call leaves behind.  The references of a gate are looked at when the gate
  is added, and the gates that were added before it stay.  A refused call thus leaves a netlist that
  may have grown, and it leaves the netlist as it was exactly when its first gate is refused.
Main exports: Builder.Begins, Builder.RefusedAfter, Session.RefusedAfter, refused_arithmetic
-/
import CarrySave.Proofs.Circuit.Synthesis
import CarrySave.Proofs.Circuit.Vetting

namespace CarrySave

namespace Builder

variable {α β : Type} {nl : Netlist} {admitted started : Prop}

/-! ### First gates -/

/-- Under a condition a builder adds a gate, whatever becomes of it later.  Otherwise it fails at
once and changes nothing. -/
def Begins (builder : Builder α) (nl : Netlist) (admitted : Prop) : Prop :=
  (admitted ∧ nl.size < (leaving builder nl).size) ∨
    (¬admitted ∧ ∃ error, builder.run nl = .error error nl)

theorem Adds.begins {builder : Builder Nat} (adds : Adds builder nl admitted) :
    Begins builder nl admitted := by
  rcases adds with ⟨yes, gate, runs⟩ | ⟨no, error, runs, -⟩
  · refine .inl ⟨yes, ?_⟩
    rw [leaving, runs, Netlist.size_push]
    exact Nat.lt_succ_self _
  · exact .inr ⟨no, error, runs⟩

/-- What comes after the first gate does not take it away. -/
theorem Begins.bind {first : Builder α} {next : α → Builder β}
    (begins : Begins first nl admitted) (growing : ∀ value, Growing (next value)) :
    Begins (first >>= next) nl admitted := by
  rcases begins with ⟨yes, more⟩ | ⟨no, error, runs⟩
  · refine .inl ⟨yes, ?_⟩
    rw [leaving] at more ⊢
    rw [EStateM.run_bind]
    cases outcome : first.run nl with
    | ok value middle =>
        rw [outcome] at more
        exact Nat.lt_of_lt_of_le more (growing value middle).size_le
    | error error left =>
        rw [outcome] at more
        exact more
  · exact .inr ⟨no, error, by rw [EStateM.run_bind, runs]⟩

/-! ### Refusals -/

/-- When a builder is refused, the gates that were there are there still, those that it added use
earlier wires, and it added none exactly when it had not started. -/
def RefusedAfter (builder : Builder α) (nl : Netlist) (started : Prop) : Prop :=
  ∀ (error : Error) (left : Netlist), builder.run nl = .error error left →
    nl.gates.toList <+: left.gates.toList ∧ nl.Grows left ∧ (left.gates = nl.gates ↔ ¬started)

theorem refusedAfter_of_granted {builder : Builder α} {value : α} {grown : Netlist}
    (runs : builder.run nl = .ok value grown) : RefusedAfter builder nl started := by
  intro error left failed
  rw [runs] at failed
  cases failed

theorem refusedAfter_throw (error : Error) (not : ¬started) :
    RefusedAfter (throw error : Builder α) nl started := by
  intro error left failed
  cases failed
  exact ⟨List.prefix_refl _, .refl, iff_of_true rfl not⟩

/-- A refused builder had started exactly when it had added its first gate. -/
theorem Begins.refusedAfter {builder : Builder α} (begins : Begins builder nl started)
    (growing : Growing builder) : RefusedAfter builder nl started := by
  intro error left failed
  have growth := growing nl
  rw [leaving, failed] at growth
  refine ⟨growth.gates_initial, growth, ?_⟩
  rcases begins with ⟨yes, more⟩ | ⟨no, error, unchanged⟩
  · rw [leaving, failed] at more
    refine iff_of_false ?_ (not_not_intro yes)
    intro same
    rw [Netlist.size, Netlist.size, same] at more
    exact Nat.lt_irrefl _ more
  · rw [failed] at unchanged
    cases unchanged
    exact iff_of_true rfl no

end Builder

open Builder

/-! ### Cells and compressions -/

theorem begins_halfAdder (nl : Netlist) (x y : Datum) :
    (halfAdder x y).Begins nl (nl.Accepts x ∧ nl.Accepts y) :=
  (adds_logic nl .xor x y).begins.bind fun _ =>
    moves_bind (growing_logic .and x y) fun _ => moves_pure _

theorem begins_fullAdder (nl : Netlist) (x y z : Datum) :
    (fullAdder x y z).Begins nl (nl.Accepts x ∧ nl.Accepts y) :=
  (begins_halfAdder nl x y).bind fun _ =>
    moves_bind (growing_halfAdder _ z) fun _ =>
      moves_bind (growing_logic .or _ _) fun _ => moves_pure _

/-- A column of two references or more begins with the first two. -/
theorem Compressor.begins_nextFrom (nl : Netlist) (weight : Nat) (x y : Datum)
    (more : List Datum) (rest : List (List Datum)) :
    (nextFrom weight ((x :: y :: more) :: rest)).Begins nl (nl.Accepts x ∧ nl.Accepts y) := by
  cases more with
  | nil =>
      rw [nextFrom]
      exact (begins_halfAdder nl x y).bind fun _ => moves_pure _
  | cons z more =>
      rw [nextFrom]
      exact (begins_fullAdder nl x y z).bind fun _ =>
        moves_bind (growing_nextFrom _ _) fun _ => moves_pure _

theorem begins_compress (nl : Netlist) (x y : Datum) (more : List Datum)
    (rest : List (List Datum)) :
    (compress ((x :: y :: more) :: rest)).Begins nl (nl.Accepts x ∧ nl.Accepts y) := by
  refine Begins.bind (Begins.bind ?_ fun _ => moves_pure _) fun _ => moves_pure _
  rw [Compressor.drain]
  apply (Compressor.begins_nextFrom nl 0 x y more rest).bind
  intro outcome
  cases outcome with
  | ended weight => exact moves_pure _
  | bit weight wire left less =>
      exact moves_bind (Compressor.growing_drain left) fun _ => moves_pure _

/-! ### Operations -/

/-- A refused half adder changes nothing: its two gates take the same references. -/
theorem refusedAfter_halfAdder (nl : Netlist) (x y : Datum) :
    (halfAdder x y).RefusedAfter nl False := by
  -- Once the first gate is granted the second one is too, so a refusal is that of the first.
  by_cases both : nl.Accepts x ∧ nl.Accepts y
  · obtain ⟨_, rfl, xBelow⟩ := both.1.exists_wire
    obtain ⟨_, rfl, yBelow⟩ := both.2.exists_wire
    exact refusedAfter_of_granted (run_halfAdder xBelow yBelow)
  · have refused := (begins_halfAdder nl x y).refusedAfter (growing_halfAdder x y)
    rwa [eq_false both] at refused

theorem refusedAfter_makeInputs (nl : Netlist) (label : String) (count : Int) :
    (makeInputs label count).RefusedAfter nl False := by
  unfold makeInputs
  split
  · exact refusedAfter_throw _ not_false
  · exact refusedAfter_of_granted (run_inputs nl _)

/-- A refused adder had started exactly when its operands are of one width and the lowest bits of
both are wires. -/
theorem refusedAfter_adder (nl : Netlist) (a b : List Datum) :
    (adder a b).RefusedAfter nl
      (a.length = b.length ∧ ∀ reference ∈ a.take 1 ++ b.take 1, nl.Accepts reference) := by
  by_cases same : a.length = b.length
  · cases a with
    | nil =>
        obtain rfl : b = [] := List.length_eq_zero_iff.mp same.symm
        have has : ∀ column ∈ ([] : List (List Nat)), nl.Has column := by simp
        obtain ⟨bits, last, runs, -⟩ := compress_run has
        exact refusedAfter_of_granted runs
    | cons x a =>
        cases b with
        | nil => cases same
        | cons y b =>
            have begins : (adder (x :: a) (y :: b)).Begins nl (nl.Accepts x ∧ nl.Accepts y) := by
              rw [adder, if_pos same]
              exact begins_compress nl x y [] _
            simpa [same] using begins.refusedAfter (growing_adder _ _)
  · unfold adder
    rw [if_neg same]
    exact refusedAfter_throw _ fun started => same started.1

/-- A refused population count had started exactly when its first two bits are wires. -/
theorem refusedAfter_popcount (nl : Netlist) (bits : List Datum) :
    (popcount bits).RefusedAfter nl (∀ reference ∈ bits.take 2, nl.Accepts reference) := by
  match bits with
  | [] =>
      have has : ∀ column ∈ [([] : List Nat)], nl.Has column := by simp [nl.has_nil]
      obtain ⟨bits, last, runs, -⟩ := compress_run has
      exact refusedAfter_of_granted runs
  | [x] =>
      rw [popcount, compress_single]
      exact refusedAfter_of_granted rfl
  | x :: y :: more =>
      have begins : (popcount (x :: y :: more)).Begins nl (nl.Accepts x ∧ nl.Accepts y) :=
        begins_compress nl x y more []
      simpa using begins.refusedAfter (growing_popcount _)

theorem begins_partialProduct (nl : Netlist) (operands : Operands) {i j : Nat}
    (belowA : i < operands.a.length) (belowB : j < operands.b.length) :
    (partialProduct operands i j).Begins nl (nl.Accepts operands.a[i]) := by
  unfold partialProduct
  simp only [List.getElem?_eq_getElem belowA, List.getElem?_eq_getElem belowB]
  exact (adds_buffer nl _).begins.bind fun _ =>
    moves_bind (growing_buffer _) fun _ =>
      moves_bind (growing_logic .and _ _) fun _ => moves_pure _

/-- The array of partial products begins with that of the lowest bits, alone on its diagonal. -/
theorem diagonals_succ (m n : Nat) :
    diagonals (m + 1) (n + 1) = [(0, 0)] :: (diagonals (m + 1) (n + 1)).tail := by
  have lowest : diagonal (m + 1) (n + 1) 0 = [(0, 0)] := by simp [diagonal]
  have some : m + 1 + (n + 1) - 1 = m + n + 1 := by omega
  rw [diagonals, some, List.range_succ_eq_map, List.map_cons, lowest, List.tail_cons]

theorem begins_multiplier (nl : Netlist) (x y : Datum) (a b : List Datum) :
    (multiplier (x :: a) (y :: b)).Begins nl (nl.Accepts x) := by
  refine Begins.bind ?_ fun columns => growing_compress columns
  rw [List.length_cons, List.length_cons, diagonals_succ]
  refine Begins.bind (Begins.bind ?_ ?_) ?_
  · exact begins_partialProduct nl ⟨x :: a, y :: b⟩ (Nat.zero_lt_succ _) (Nat.zero_lt_succ _)
  · exact fun product => moves_bind (growing_diagonalProducts product.2 []) fun _ => moves_pure _
  · exact fun products =>
      moves_bind (growing_partialProducts products.2 _) fun _ => moves_pure _

/-- Diagonals on which there are no pairs are columns without wires. -/
theorem run_partialProducts_of_flatten_eq_nil (nl : Netlist) (operands : Operands)
    {array : List (List (Nat × Nat))} (none : array.flatten = []) :
    (partialProducts operands array).run nl =
      .ok (Compressor.references (List.replicate array.length [])) nl := by
  induction array with
  | nil => rfl
  | cons pairs rest inductionHypothesis =>
      obtain ⟨rfl, above⟩ := List.append_eq_nil_iff.mp none
      simp only [partialProducts, diagonalProducts, EStateM.run_bind, EStateM.run_pure,
        inductionHypothesis above]
      rfl

/-- A multiplier without any pair of bits to multiply is granted. -/
theorem multiplier_granted (nl : Netlist) {a b : List Datum} (none : a = [] ∨ b = []) :
    ∃ outputs grown, (multiplier a b).run nl = .ok outputs grown := by
  have noPairs : (diagonals a.length b.length).flatten = [] := by
    have pairs := flatten_diagonals_perm a.length b.length
    rcases none with rfl | rfl
    · exact List.Perm.eq_nil pairs
    · simpa using pairs
  have has : ∀ column ∈ List.replicate (diagonals a.length b.length).length [],
      nl.Has column := by
    intro column member
    rw [List.eq_of_mem_replicate member]
    exact nl.has_nil
  obtain ⟨bits, last, runs, -⟩ := compress_run has
  refine ⟨(bits.map (·.2)).map .wire, last.netlist, ?_⟩
  simp only [multiplier, EStateM.run_bind, runs,
    run_partialProducts_of_flatten_eq_nil nl ⟨a, b⟩ noPairs]

/-- A refused multiplier had started exactly when the lowest bit of its first operand is a wire. -/
theorem refusedAfter_multiplier (nl : Netlist) (a b : List Datum) :
    (multiplier a b).RefusedAfter nl (∀ reference ∈ a.take 1, nl.Accepts reference) := by
  by_cases empty : a = [] ∨ b = []
  · obtain ⟨outputs, grown, runs⟩ := multiplier_granted nl empty
    exact refusedAfter_of_granted runs
  · obtain ⟨someA, someB⟩ := not_or.mp empty
    obtain ⟨x, a, rfl⟩ := List.exists_cons_of_ne_nil someA
    obtain ⟨y, b, rfl⟩ := List.exists_cons_of_ne_nil someB
    simpa using (begins_multiplier nl x y a b).refusedAfter (growing_multiplier _ _)

/-! ### Refused calls -/

namespace Session

variable {session : Session} {request : Request} {started : Prop}

/-- When a request is refused, the gates that were there are there still, those that were added use
earlier wires, and none were added exactly when the request had not started.  Nothing else of the
session changes. -/
def RefusedAfter (session : Session) (request : Request) (started : Prop) : Prop :=
  ∀ (error : Error) (left : Session), (serve request).run session = .error error left →
    session.netlist.gates.toList <+: left.netlist.gates.toList ∧
      session.netlist.Grows left.netlist ∧
      (left.netlist.gates = session.netlist.gates ↔ ¬started) ∧
      left.compressions = session.compressions

/-- A request that is answered from what a builder returns leaves what the builder leaves. -/
theorem refusedAfter_of_builder {α : Type} {builder : Builder α} {reply : α → Reply}
    (refused : builder.RefusedAfter session.netlist started)
    (served : serve request = building builder >>= fun value => pure (reply value)) :
    session.RefusedAfter request started := by
  intro error left failed
  rw [served, EStateM.run_bind] at failed
  simp only [EStateM.run, building] at failed
  cases outcome : builder session.netlist with
  | ok value grown =>
      rw [outcome] at failed
      cases failed
  | error error grown =>
      rw [outcome] at failed
      cases failed
      obtain ⟨initial, growth, unchanged⟩ := refused error grown outcome
      exact ⟨initial, growth, unchanged, rfl⟩

/-- The number of inputs is looked at before any of them is made. -/
theorem refusedAfter_makeInputs (session : Session) (label count : Datum) :
    session.RefusedAfter (.makeInputs label count) False := by
  cases counted : count.count with
  | ok number =>
      apply refusedAfter_of_builder (CarrySave.refusedAfter_makeInputs _ label.display number)
      rw [serve, counted]
      rfl
  | error error =>
      intro error left failed
      rw [serve, counted] at failed
      cases failed
      exact ⟨List.prefix_refl _, .refl, iff_of_true rfl not_false, rfl⟩

end Session

/-- What a refused call leaves behind, whatever it is given for wires, labels and counts: all gates
that were there, followed by those that it had added to them.  Making inputs and half adders add none
when they are refused.  Every other call adds none then exactly when its first gate is refused: when
one of the first two bits of a full adder or of a population count is no wire; when the operands of an
adder differ in width or one of their lowest bits is no wire; and when the lowest bit of the first
operand of a multiplier is no wire. -/
theorem refused_arithmetic (session : Session) :
    let accepts := session.netlist.Accepts
    (∀ label count, session.RefusedAfter (.makeInputs label count) False) ∧
    (∀ x y, session.RefusedAfter (.halfAdder x y) False) ∧
    (∀ x y z, session.RefusedAfter (.fullAdder x y z) (accepts x ∧ accepts y)) ∧
    (∀ a b, session.RefusedAfter (.adder a b)
      (a.length = b.length ∧ ∀ reference ∈ a.take 1 ++ b.take 1, accepts reference)) ∧
    (∀ bits, session.RefusedAfter (.popcount bits) (∀ reference ∈ bits.take 2, accepts reference)) ∧
    ∀ a b, session.RefusedAfter (.multiplier a b) (∀ reference ∈ a.take 1, accepts reference) := by
  intro accepts
  refine ⟨session.refusedAfter_makeInputs, ?_, ?_, ?_, ?_, ?_⟩
  · exact fun x y => Session.refusedAfter_of_builder (refusedAfter_halfAdder _ x y) rfl
  · exact fun x y z => Session.refusedAfter_of_builder
      ((begins_fullAdder _ x y z).refusedAfter (growing_fullAdder x y z)) rfl
  · exact fun a b => Session.refusedAfter_of_builder (refusedAfter_adder _ a b) rfl
  · exact fun bits => Session.refusedAfter_of_builder (refusedAfter_popcount _ bits) rfl
  · exact fun a b => Session.refusedAfter_of_builder (refusedAfter_multiplier _ a b) rfl

/-- A full adder of two wires and of a reference that names none is refused and leaves a half
adder. -/
theorem fullAdder_leaves_halfAdder :
    threeInputs.Reachable ∧
    (fullAdder (.int 0) (.int 1) (.int 99)).run threeInputs =
      .error (.noSuchWire 99 5) (threeInputs.withHalfAdder 0 1) ∧
    (Error.noSuchWire 99 5).cls = .badRequest ∧
    (threeInputs.withHalfAdder 0 1).gates ≠ threeInputs.gates :=
  ⟨threeInputs_reachable, rfl, rfl, by decide⟩

end CarrySave
