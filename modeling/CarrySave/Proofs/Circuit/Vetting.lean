/-
Module: CarrySave.Proofs.Circuit.Vetting
Layer: Proofs
Purpose: Which references arithmetic accepts.  Whatever it is given, an operation is refused as a
  bad request or granted.  When it is granted, every reference that it was given is used by a gate
  that it added, and named a wire by then, unless the reference had nothing to be added to: then no
  gate looks at it.  What it returns are wires, except for such a reference, which is passed on.
Main exports: Builder.Vets, Netlist.UsedSince, Compressor.Alone, Compressor.Answers,
  vets_compressColumns, vets_compress, vets_multiplier, granted_references
-/
import CarrySave.Proofs.Circuit.Cells
import CarrySave.Proofs.Circuit.Multiplication
import CarrySave.Proofs.Session.Invariant

namespace CarrySave

/-! ### Refused or granted -/

namespace Builder

variable {α β : Type}

/-- On a netlist a builder is refused as a bad request, or it is granted and what it returns and
the netlist that it leaves meet a condition. -/
def Vets (builder : Builder α) (nl : Netlist) (granted : α → Netlist → Prop) : Prop :=
  match builder.run nl with
  | .ok value grown => granted value grown
  | .error error _ => error.cls = .badRequest

theorem vets_of_run_ok {builder : Builder α} {nl grown : Netlist} {value : α}
    {granted : α → Netlist → Prop} (runs : builder.run nl = .ok value grown)
    (holds : granted value grown) : Vets builder nl granted := by
  rw [Vets, runs]
  exact holds

theorem vets_of_run_error {builder : Builder α} {nl left : Netlist} {error : Error}
    {granted : α → Netlist → Prop} (runs : builder.run nl = .error error left)
    (bad : error.cls = .badRequest) : Vets builder nl granted := by
  rw [Vets, runs]
  exact bad

theorem vets_pure {value : α} {nl : Netlist} {granted : α → Netlist → Prop}
    (holds : granted value nl) : Vets (pure value) nl granted :=
  holds

theorem vets_throw {error : Error} {nl : Netlist} {granted : α → Netlist → Prop}
    (bad : error.cls = .badRequest) : Vets (throw error) nl granted :=
  bad

theorem vets_bind {first : Builder α} {next : α → Builder β} {nl : Netlist}
    {granted : β → Netlist → Prop}
    (both : Vets first nl fun value middle => Vets (next value) middle granted) :
    Vets (first >>= next) nl granted := by
  rw [Vets] at both ⊢
  rw [EStateM.run_bind]
  cases outcome : first.run nl with
  | ok value middle =>
      rw [outcome] at both
      exact both
  | error error left =>
      rw [outcome] at both
      exact both

theorem Vets.imp {builder : Builder α} {nl : Netlist} {granted weaker : α → Netlist → Prop}
    (vets : Vets builder nl granted)
    (implies : ∀ value grown, granted value grown → weaker value grown) :
    Vets builder nl weaker := by
  rw [Vets] at vets ⊢
  cases outcome : builder.run nl with
  | ok value grown =>
      rw [outcome] at vets
      exact implies value grown vets
  | error error left =>
      rw [outcome] at vets
      exact vets

end Builder

open Builder

/-! ### References that are used -/

namespace Netlist

/-- Since a netlist grew to another, a gate was added that uses a reference.  The reference named
an earlier wire than that gate. -/
def UsedSince (nl grown : Netlist) (reference : Datum) : Prop :=
  ∃ (wire operand : Nat) (gate : Gate), nl.size ≤ wire ∧ grown.gates[wire]? = some gate ∧
    operand ∈ gate.operands ∧ operand < wire ∧ reference = .wire operand

theorem UsedSince.later {nl grown last : Netlist} {reference : Datum}
    (used : nl.UsedSince grown reference) (growth : grown.Grows last) :
    nl.UsedSince last reference := by
  obtain ⟨wire, operand, gate, new, found, rest⟩ := used
  refine ⟨wire, operand, gate, new, ?_, rest⟩
  rw [growth.getElem?_eq (lt_size_of_getElem? found), found]

theorem UsedSince.earlier {nl middle grown : Netlist} {reference : Datum}
    (used : middle.UsedSince grown reference) (growth : nl.Grows middle) :
    nl.UsedSince grown reference := by
  obtain ⟨wire, operand, gate, new, rest⟩ := used
  exact ⟨wire, operand, gate, Nat.le_trans growth.size_le new, rest⟩

theorem usedSince_push {nl : Netlist} {operand : Nat} {gate : Gate}
    (member : operand ∈ gate.operands) (below : operand < nl.size) :
    nl.UsedSince (nl.push gate) (.wire operand) :=
  ⟨nl.size, operand, gate, Nat.le_refl _, getElem?_push_size nl gate, member, below, rfl⟩

theorem accepts_wire {nl : Netlist} {wire : Nat} (below : wire < nl.size) :
    nl.Accepts (.wire wire) :=
  (nl.accepts_iff _).mpr ⟨wire, resolve_wire below⟩

/-- A reference that is accepted is that of an existing wire. -/
theorem Accepts.exists_wire {nl : Netlist} {reference : Datum} (accepted : nl.Accepts reference) :
    ∃ wire, reference = .wire wire ∧ wire < nl.size := by
  obtain ⟨wire, resolved⟩ := (nl.accepts_iff reference).mp accepted
  exact ⟨wire, (nl.resolve_eq_ok_iff reference wire).mp resolved⟩

end Netlist

/-! ### Gates and cells -/

namespace Builder

theorem vets_buffer (nl : Netlist) (source : Datum) :
    Vets (buffer source) nl fun wire grown =>
      nl.Grows grown ∧ wire < grown.size ∧ nl.UsedSince grown source := by
  rcases adds_buffer nl source with ⟨accepted, -⟩ | ⟨-, error, runs, bad⟩
  · obtain ⟨wire, rfl, below⟩ := accepted.exists_wire
    apply vets_of_run_ok (run_buffer below)
    exact ⟨.push _ .refl (by simpa [Gate.operands] using below), by simp,
      Netlist.usedSince_push (by simp [Gate.operands]) below⟩
  · exact vets_of_run_error runs bad

theorem vets_logic (nl : Netlist) (op : Op) (a b : Datum) :
    Vets (logic op a b) nl fun wire grown =>
      nl.Grows grown ∧ wire < grown.size ∧ nl.UsedSince grown a ∧ nl.UsedSince grown b := by
  rcases adds_logic nl op a b with ⟨⟨acceptedA, acceptedB⟩, -⟩ | ⟨-, error, runs, bad⟩
  · obtain ⟨x, rfl, xBelow⟩ := acceptedA.exists_wire
    obtain ⟨y, rfl, yBelow⟩ := acceptedB.exists_wire
    apply vets_of_run_ok (run_logic op xBelow yBelow)
    exact ⟨.push _ .refl (by simpa [Gate.operands] using And.intro xBelow yBelow), by simp,
      Netlist.usedSince_push (by simp [Gate.operands]) xBelow,
      Netlist.usedSince_push (by simp [Gate.operands]) yBelow⟩
  · exact vets_of_run_error runs bad

end Builder

theorem vets_halfAdder (nl : Netlist) (x y : Datum) :
    (halfAdder x y).Vets nl fun cell grown =>
      nl.Grows grown ∧ grown.Has [cell.1, cell.2] ∧
        nl.UsedSince grown x ∧ nl.UsedSince grown y := by
  apply vets_bind
  apply (vets_logic nl .xor x y).imp
  rintro sum middle ⟨first, sumBelow, usedX, usedY⟩
  apply vets_bind
  apply (vets_logic middle .and x y).imp
  rintro carry grown ⟨second, carryBelow, -, -⟩
  refine vets_pure ⟨first.trans second, ?_, usedX.later second, usedY.later second⟩
  simpa [Netlist.has_nil] using And.intro (Nat.lt_of_lt_of_le sumBelow second.size_le) carryBelow

theorem vets_fullAdder (nl : Netlist) (x y z : Datum) :
    (fullAdder x y z).Vets nl fun cell grown =>
      nl.Grows grown ∧ grown.Has [cell.1, cell.2] ∧
        nl.UsedSince grown x ∧ nl.UsedSince grown y ∧ nl.UsedSince grown z := by
  apply vets_bind
  apply (vets_halfAdder nl x y).imp
  rintro ⟨partialSum, firstCarry⟩ middle ⟨first, -, usedX, usedY⟩
  apply vets_bind
  apply (vets_halfAdder middle (.wire partialSum) z).imp
  rintro ⟨sum, secondCarry⟩ later ⟨second, has, -, usedZ⟩
  apply vets_bind
  apply (vets_logic later .or (.wire firstCarry) (.wire secondCarry)).imp
  rintro carry grown ⟨third, carryBelow, -, -⟩
  refine vets_pure ⟨(first.trans second).trans third, ?_, usedX.later (second.trans third),
    usedY.later (second.trans third), (usedZ.earlier first).later third⟩
  have sumBelow := (Netlist.has_cons_iff.mp has).1
  simpa [Netlist.has_nil] using And.intro (Nat.lt_of_lt_of_le sumBelow third.size_le) carryBelow

/-! ### Compressions -/

namespace Compressor

/-- A reference stands alone in a column when a compression gets to it: it is the only one in the
column, and no carry arrives. -/
def Alone (columns : List (List Datum)) (weight : Nat) (reference : Datum) : Prop :=
  columns[weight]? = some [reference] ∧ arrivals columns weight = 1

/-- What a compression that is granted does with the references that it is given in columns, the
lowest of which has the weight `lowest`: it uses all but those that stand alone, it passes those on as
the bits of their weights, and the other bits that it gives are wires.  There is one bit for a weight
at most, and the bits are in order of their weights. -/
structure Answers (nl grown : Netlist) (lowest : Nat) (columns : List (List Datum))
    (bits : List (Nat × Datum)) : Prop where
  used : ∀ place column, columns[place]? = some column → ∀ reference ∈ column,
    Alone columns place reference ∨ nl.UsedSince grown reference
  passed : ∀ place reference, Alone columns place reference → (lowest + place, reference) ∈ bits
  given : ∀ bit ∈ bits, grown.Accepts bit.2 ∨
    ∃ place, bit.1 = lowest + place ∧ Alone columns place bit.2
  increasing : (bits.map (·.1)).Pairwise (· < ·)
  above : ∀ bit ∈ bits, lowest ≤ bit.1

theorem arrivals_cons_succ (column : List Datum) (rest : List (List Datum)) (weight : Nat) :
    arrivals (column :: rest) (weight + 1) = (column.length / 2 + load rest weight) / 2 ^ weight := by
  rw [arrivals, load_succ, pow_succ', ← Nat.div_div_eq_div_mul]
  congr 1
  omega

/-- What stands alone after a wire was deposited is that wire, in a column of its own, or it stood
in its column alone before. -/
theorem getElem?_deposit_eq_singleton {α : Type} {wire reference : α} {columns : List (List α)}
    {weight : Nat} (alone : (deposit wire columns)[weight]? = some [reference]) :
    (reference = wire ∧ columns.getD weight [] = []) ∨ columns[weight]? = some [reference] := by
  cases columns with
  | nil =>
      cases weight with
      | zero => simpa [deposit, eq_comm] using alone
      | succ weight => simp [deposit] at alone
  | cons column rest =>
      cases weight with
      | succ weight => exact .inr alone
      | zero =>
          have whole : column ++ [wire] = [reference] := by simpa [deposit] using alone
          cases column with
          | nil => exact .inl ⟨(List.cons.inj whole).1.symm, rfl⟩
          | cons first others => simp at whole

/-- Depositing leaves all columns but the lowest alone. -/
theorem getElem?_deposit_of_ne_zero {α : Type} (wire : α) (columns : List (List α)) {weight : Nat}
    (above : weight ≠ 0) : (deposit wire columns)[weight]? = columns[weight]? := by
  obtain ⟨place, rfl⟩ := Nat.exists_eq_succ_of_ne_zero above
  cases columns <;> rfl

/-- What stands in a column stands there still after a wire was deposited. -/
theorem exists_mem_deposit {α : Type} (wire : α) {reference : α} {columns : List (List α)}
    {weight : Nat} {column : List α} (there : columns[weight]? = some column)
    (member : reference ∈ column) :
    ∃ deposited, (deposit wire columns)[weight]? = some deposited ∧ reference ∈ deposited := by
  cases columns with
  | nil => cases there
  | cons first rest =>
      cases weight with
      | zero =>
          cases there
          exact ⟨_, rfl, List.mem_append_left _ member⟩
      | succ weight => exact ⟨column, there, member⟩

/-! ### What comes to stand alone

A cell takes some references from the lowest column, and puts its sum there and its carry above. -/

section Cells

variable {rest : List (List Datum)} {taken more : List Datum} {sum carry reference : Datum}
  {weight : Nat} (traded : (taken ++ more).length / 2 = (more.length + 1) / 2 + 1)

include traded

/-- The carry of a cell makes up for the references that it takes. -/
theorem arrivals_after_cell (weight : Nat) :
    arrivals ((more ++ [sum]) :: deposit carry rest) (weight + 1) =
      arrivals ((taken ++ more) :: rest) (weight + 1) := by
  rw [arrivals_cons_succ, arrivals_cons_succ, load_deposit, traded, List.length_append,
    List.length_singleton]
  congr 1
  omega

/-- What stands alone after a cell stood alone before it, or it is the sum or the carry in a column
that is empty otherwise. -/
theorem Alone.before_cell (alone : Alone ((more ++ [sum]) :: deposit carry rest) weight reference) :
    Alone ((taken ++ more) :: rest) weight reference ∨
      (weight = 0 ∧ more = [] ∧ reference = sum) ∨
        ∃ place, weight = place + 1 ∧ rest.getD place [] = [] ∧ reference = carry := by
  obtain ⟨there, one⟩ := alone
  cases weight with
  | zero =>
      have only : more ++ [sum] = [reference] := Option.some.inj there
      rcases List.append_eq_singleton_iff.mp only with ⟨none, same⟩ | ⟨-, none⟩
      · exact .inr (.inl ⟨rfl, none, (List.cons.inj same).1.symm⟩)
      · cases none
  | succ place =>
      rcases getElem?_deposit_eq_singleton there with ⟨same, none⟩ | stood
      · exact .inr (.inr ⟨place, rfl, none, same⟩)
      · exact .inl ⟨stood, (arrivals_after_cell traded place).symm.trans one⟩

/-- What stands alone before a cell stands alone after it: the cell takes two references at least,
and where its carry goes another wire arrives. -/
theorem Alone.after_cell (alone : Alone ((taken ++ more) :: rest) weight reference) :
    Alone ((more ++ [sum]) :: deposit carry rest) weight reference := by
  obtain ⟨there, one⟩ := alone
  cases weight with
  | zero =>
      have short : (taken ++ more).length = 1 := by
        rw [Option.some.inj there, List.length_singleton]
      omega
  | succ place =>
      have stood : rest[place]? = some [reference] := there
      -- In the column next to the lowest one, the carry would be a second wire.
      have above : place ≠ 0 := by
        rintro rfl
        rw [arrivals_cons_succ, traded, load] at one
        simp [height, List.getD, stood] at one
      have still : (deposit carry rest)[place]? = some [reference] := by
        rw [getElem?_deposit_of_ne_zero carry rest above, stood]
      exact ⟨still, (arrivals_after_cell traded place).trans one⟩

end Cells

/-! ### What a granted compression answers for -/

namespace Answers

variable {nl middle grown : Netlist} {lowest : Nat} {columns rest : List (List Datum)}
  {bits : List (Nat × Datum)}

theorem nil (nl grown : Netlist) (lowest : Nat) : Answers nl grown lowest [] [] where
  used := by simp
  passed := by simp [Alone]
  given := by simp
  increasing := List.Pairwise.nil
  above := by simp

/-- The bit of a column of at most one reference comes before those of higher weights. -/
theorem increasing_of_rest {column : List Datum} (short : column.length ≤ 1)
    (increasing : (bits.map (·.1)).Pairwise (· < ·)) (above : ∀ bit ∈ bits, lowest + 1 ≤ bit.1) :
    ((column.map (lowest, ·) ++ bits).map (·.1)).Pairwise (· < ·) := by
  match column with
  | [] => exact increasing
  | [only] =>
      rw [List.map_singleton, List.singleton_append, List.map_cons, List.pairwise_cons]
      exact ⟨List.forall_mem_map.mpr above, increasing⟩
  | _ :: _ :: _ => simp at short

/-- A column of at most one reference sends nothing up, and its reference stands alone. -/
theorem of_rest (column : List Datum) (answers : Answers nl grown (lowest + 1) rest bits)
    (short : column.length ≤ 1) :
    Answers nl grown lowest (column :: rest) (column.map (lowest, ·) ++ bits) := by
  have above : ∀ {weight reference}, Alone rest weight reference →
      Alone (column :: rest) (weight + 1) reference := by
    rintro weight reference ⟨there, one⟩
    refine ⟨there, ?_⟩
    rw [arrivals_cons_succ, (by omega : column.length / 2 = 0), zero_add]
    exact one
  have first : ∀ reference ∈ column, Alone (column :: rest) 0 reference := by
    intro reference member
    obtain ⟨only, rfl⟩ : ∃ only, column = [only] :=
      List.length_eq_one_iff.mp (Nat.le_antisymm short (List.length_pos_of_mem member))
    obtain rfl := List.mem_singleton.mp member
    exact ⟨rfl, by simp [arrivals, load_zero]⟩
  constructor
  · intro place found there reference member
    cases place with
    | zero =>
        cases there
        exact .inl (first reference member)
    | succ place => exact (answers.used place found there reference member).imp_left above
  · rintro place reference ⟨there, one⟩
    cases place with
    | zero =>
        cases there
        simp
    | succ place =>
        rw [arrivals_cons_succ, (by omega : column.length / 2 = 0), zero_add] at one
        have passed := answers.passed place reference ⟨there, one⟩
        rw [Nat.add_right_comm] at passed
        exact List.mem_append_right _ passed
  · intro bit member
    rcases List.mem_append.mp member with here | later
    · obtain ⟨reference, inside, rfl⟩ := List.mem_map.mp here
      exact .inr ⟨0, rfl, first reference inside⟩
    · rcases answers.given bit later with accepted | ⟨place, weight, alone⟩
      · exact .inl accepted
      · exact .inr ⟨place + 1, by omega, above alone⟩
  · exact increasing_of_rest short answers.increasing answers.above
  · intro bit member
    rcases List.mem_append.mp member with here | later
    · obtain ⟨reference, inside, rfl⟩ := List.mem_map.mp here
      exact Nat.le_refl _
    · exact Nat.le_of_succ_le (answers.above bit later)

/-- A cell uses what it takes, and its sum and its carry take the place of that. -/
theorem of_cell (taken more : List Datum) {sum carry : Nat}
    (answers : Answers middle grown lowest
      ((more ++ [.wire sum]) :: deposit (.wire carry) rest) bits)
    (before : nl.Grows middle) (after : middle.Grows grown) (has : middle.Has [sum, carry])
    (used : ∀ reference ∈ taken, nl.UsedSince middle reference)
    (traded : (taken ++ more).length / 2 = (more.length + 1) / 2 + 1) :
    Answers nl grown lowest ((taken ++ more) :: rest) bits := by
  obtain ⟨sumBelow, carryBelow, -⟩ := by simpa using has
  refine ⟨?_, ?_, ?_, answers.increasing, answers.above⟩
  · intro weight found there reference member
    cases weight with
    | zero =>
        cases there
        rcases List.mem_append.mp member with first | other
        · exact .inr ((used reference first).later after)
        -- What the cell left has company at least from the sum.
        · rcases answers.used 0 _ rfl reference (List.mem_append_left _ other) with alone | later
          · rcases alone.before_cell traded with old | ⟨-, rfl, -⟩ | ⟨place, impossible, -⟩
            · exact .inl old
            · cases other
            · cases impossible
          · exact .inr (later.earlier before)
    | succ weight =>
        have stood : rest[weight]? = some found := there
        obtain ⟨deposited, thereStill, memberStill⟩ :=
          exists_mem_deposit (.wire carry) stood member
        rcases answers.used (weight + 1) deposited thereStill reference memberStill with alone | later
        · rcases alone.before_cell traded with old | ⟨impossible, -⟩ | ⟨place, same, none, -⟩
          · exact .inl old
          · cases impossible
          · cases same
            rw [List.getD_eq_getElem?_getD, stood] at none
            cases none
            cases member
        · exact .inr (later.earlier before)
  · intro weight reference alone
    exact answers.passed weight reference (alone.after_cell traded)
  · intro bit member
    rcases answers.given bit member with accepted | ⟨place, weight, alone⟩
    · exact .inl accepted
    · rcases alone.before_cell traded with old | ⟨-, -, isSum⟩ | ⟨_, -, -, isCarry⟩
      · exact .inr ⟨place, weight, old⟩
      · rw [isSum]
        exact .inl (Netlist.accepts_wire (Nat.lt_of_lt_of_le sumBelow after.size_le))
      · rw [isCarry]
        exact .inl (Netlist.accepts_wire (Nat.lt_of_lt_of_le carryBelow after.size_le))

end Answers

/-- What a compression that was advanced to an outcome still has to answer for: whatever answers
come from what is left of it complete its own. -/
def Continues (nl middle : Netlist) (lowest : Nat) (columns : List (List Datum)) {bound : Nat}
    (outcome : Advance bound) : Prop :=
  match outcome with
  | .ended _ => Answers nl middle lowest columns []
  | .bit weight wire rest _ =>
      ∀ grown bits, middle.Grows grown → Answers middle grown rest.weight rest.columns bits →
        Answers nl grown lowest columns ((weight, wire) :: bits)

theorem continues_widen {nl middle : Netlist} {lowest : Nat} {columns : List (List Datum)}
    {bound larger : Nat} {outcome : Advance bound} (le : bound ≤ larger) :
    Continues nl middle lowest columns (outcome.widen le) ↔
      Continues nl middle lowest columns outcome := by
  cases outcome <;> exact Iff.rfl

/-- When the answers of some columns make answers of others, so do those that are still to come. -/
theorem Continues.imp {nl middle last : Netlist} {lowest next : Nat}
    {columns others : List (List Datum)} {bound : Nat} {outcome : Advance bound}
    (continues : Continues middle last next others outcome)
    (answers : ∀ grown bits, last.Grows grown → Answers middle grown next others bits →
      Answers nl grown lowest columns bits) :
    Continues nl last lowest columns outcome := by
  cases outcome with
  | ended weight => exact answers last [] .refl continues
  | bit weight wire rest less =>
      exact fun grown bits growth later =>
        answers grown _ growth (continues grown bits growth later)

/-- Advancing columns of any references is refused as a bad request or leads to a bit or to the
end. -/
theorem vets_nextFrom (nl : Netlist) (weight : Nat) (columns : List (List Datum)) :
    (nextFrom weight columns).Vets nl fun outcome middle =>
      nl.Grows middle ∧ Continues nl middle weight columns outcome := by
  -- Along the recursion of the program: each case completes the answers of what it leaves.
  induction weight, columns using nextFrom.induct generalizing nl with
  | case1 weight =>
      rw [nextFrom]
      exact vets_pure ⟨.refl, Answers.nil nl nl weight⟩
  | case2 weight rest inductionHypothesis =>
      rw [nextFrom]
      apply vets_bind
      apply (inductionHypothesis nl).imp
      rintro outcome middle ⟨growth, continues⟩
      refine vets_pure ⟨growth, (continues_widen _).mpr (continues.imp ?_)⟩
      exact fun grown bits _ answers => answers.of_rest [] (by simp)
  | case3 weight x rest =>
      rw [nextFrom]
      refine vets_pure ⟨.refl, ?_⟩
      exact fun grown bits _ answers => answers.of_rest [x] (by simp)
  | case4 weight x y rest =>
      rw [nextFrom]
      apply vets_bind
      apply (vets_halfAdder nl x y).imp
      rintro ⟨sum, carry⟩ middle ⟨growth, has, usedX, usedY⟩
      refine vets_pure ⟨growth, ?_⟩
      intro grown bits later answers
      have sumAlone := answers.of_rest [.wire sum] (by simp)
      exact sumAlone.of_cell [x, y] [] growth later has (by simpa using ⟨usedX, usedY⟩) (by simp)
  | case5 weight x y z more rest inductionHypothesis =>
      rw [nextFrom]
      apply vets_bind
      apply (vets_fullAdder nl x y z).imp
      rintro ⟨sum, carry⟩ middle ⟨growth, has, usedX, usedY, usedZ⟩
      apply vets_bind
      apply (inductionHypothesis sum carry middle).imp
      rintro outcome last ⟨further, continues⟩
      refine vets_pure ⟨growth.trans further, (continues_widen _).mpr (continues.imp ?_)⟩
      intro grown bits later answers
      exact answers.of_cell [x, y, z] more growth (further.trans later) has
        (by simpa using ⟨usedX, usedY, usedZ⟩) (by simp; omega)

/-- Draining columns of any references is refused as a bad request or answers for all of them. -/
theorem vets_drain (nl : Netlist) (compressor : Compressor) :
    compressor.drain.Vets nl fun (bits, _) grown =>
      nl.Grows grown ∧ Answers nl grown compressor.weight compressor.columns bits := by
  induction compressor using drain.induct generalizing nl with
  | case1 compressor inductionHypothesis =>
      rw [drain]
      apply vets_bind
      apply (vets_nextFrom nl compressor.weight compressor.columns).imp
      rintro outcome middle ⟨growth, continues⟩
      cases outcome with
      | ended weight => exact vets_pure ⟨growth, continues⟩
      | bit weight wire rest less =>
          apply vets_bind
          apply (inductionHypothesis rest less middle).imp
          rintro ⟨bits, top⟩ grown ⟨further, answers⟩
          exact vets_pure ⟨growth.trans further, continues grown _ further answers⟩

end Compressor

open Compressor

theorem vets_compressColumns (nl : Netlist) (columns : List (List Datum)) :
    (compressColumns columns).Vets nl fun bits grown => Answers nl grown 0 columns bits := by
  apply vets_bind
  apply (vets_drain nl { columns }).imp
  rintro ⟨bits, top⟩ grown ⟨-, answers⟩
  exact answers

/-- What compression to bits without their weights returns are the bits that it gives with them. -/
theorem vets_compress (nl : Netlist) (columns : List (List Datum)) :
    (compress columns).Vets nl fun outputs grown =>
      ∃ bits, (compressColumns columns).run nl = .ok bits grown ∧ outputs = bits.map (·.2) ∧
        Answers nl grown 0 columns bits := by
  have vets := vets_compressColumns nl columns
  apply vets_bind
  rw [Vets] at vets ⊢
  cases runs : (compressColumns columns).run nl with
  | ok bits grown =>
      rw [runs] at vets
      exact vets_pure ⟨bits, rfl, rfl, vets⟩
  | error error left =>
      rw [runs] at vets
      exact vets

/-! ### Operations -/

/-- Columns without a reference that could stand alone have all their references used, and only
wires come of them. -/
theorem Compressor.Answers.of_not_alone {nl grown : Netlist} {columns : List (List Datum)}
    {bits : List (Nat × Datum)} (answers : Answers nl grown 0 columns bits)
    (pairs : ∀ column ∈ columns, column.length ≠ 1) :
    (∀ column ∈ columns, ∀ reference ∈ column, nl.UsedSince grown reference) ∧
      ∀ bit ∈ bits, grown.Accepts bit.2 := by
  have never : ∀ {weight reference}, ¬Alone columns weight reference := by
    rintro weight reference ⟨there, -⟩
    exact pairs _ (List.mem_of_getElem? there) rfl
  constructor
  · intro column member reference inside
    obtain ⟨weight, there⟩ := List.getElem?_of_mem member
    exact (answers.used weight column there reference inside).resolve_left never
  · intro bit member
    exact (answers.given bit member).resolve_right fun ⟨_, _, alone⟩ => never alone

/-- An adder that is granted uses all bits of its operands, and only wires come of it. -/
theorem vets_adder (nl : Netlist) (a b : List Datum) :
    (adder a b).Vets nl fun outputs grown =>
      (∀ reference ∈ a ++ b, nl.UsedSince grown reference) ∧
        ∀ output ∈ outputs, grown.Accepts output := by
  unfold adder
  split
  · rename_i same
    apply (vets_compress nl _).imp
    rintro _ grown ⟨bits, -, rfl, answers⟩
    have columnOf : ∀ index (belowA : index < a.length) (belowB : index < b.length),
        [a[index], b[index]] ∈ List.zipWith (fun x y => [x, y]) a b := by
      intro index belowA belowB
      rw [List.mem_iff_getElem]
      exact ⟨index, by simp; omega, by simp⟩
    have pairs : ∀ column ∈ List.zipWith (fun x y => [x, y]) a b, column.length ≠ 1 := by
      intro column member
      obtain ⟨index, below, rfl⟩ := List.mem_iff_getElem.mp member
      simp
    obtain ⟨used, wires⟩ := answers.of_not_alone pairs
    refine ⟨?_, List.forall_mem_map.mpr wires⟩
    intro reference member
    rcases List.mem_append.mp member with inA | inB
    · obtain ⟨index, below, rfl⟩ := List.mem_iff_getElem.mp inA
      exact used _ (columnOf index below (by omega)) _ (by simp)
    · obtain ⟨index, below, rfl⟩ := List.mem_iff_getElem.mp inB
      exact used _ (columnOf index (by omega) below) _ (by simp)
  · exact vets_throw rfl

/-- A population count that is granted uses all its bits and only wires come of it, except that it
passes a single bit on. -/
theorem vets_popcount (nl : Netlist) (bits : List Datum) :
    (popcount bits).Vets nl fun outputs grown =>
      (∀ reference ∈ bits, bits = [reference] ∨ nl.UsedSince grown reference) ∧
        ∀ output ∈ outputs, bits = [output] ∨ grown.Accepts output := by
  have only : ∀ {weight reference}, Alone [bits] weight reference → bits = [reference] := by
    rintro weight reference ⟨there, -⟩
    cases weight with
    | zero => exact Option.some.inj there
    | succ weight => cases there
  apply (vets_compress nl [bits]).imp
  rintro _ grown ⟨given, -, rfl, answers⟩
  constructor
  · intro reference member
    exact (answers.used 0 bits rfl reference member).imp_left only
  · intro output member
    obtain ⟨bit, inside, rfl⟩ := List.mem_map.mp member
    rcases answers.given bit inside with accepted | ⟨_, _, alone⟩
    · exact .inr accepted
    · exact .inl (only alone)

/-! ### Multiplication

Each partial product looks at one bit of each operand and puts copies in their places.  A bit is
thus either still in its place or has been used. -/

/-- Each bit of an operand is in its place still or has been used, and those at some places have
been used. -/
structure Renewed (nl grown : Netlist) (before after : List Datum) (places : List Nat) : Prop where
  length_eq : after.length = before.length
  same_or_used : ∀ (place : Nat) (bit : Datum), before[place]? = some bit →
    after[place]? = some bit ∨ nl.UsedSince grown bit
  used : ∀ place ∈ places, ∀ bit : Datum, before[place]? = some bit → nl.UsedSince grown bit

namespace Renewed

variable {nl middle grown : Netlist} {before between after : List Datum} {places more : List Nat}

theorem refl (nl : Netlist) (bits : List Datum) : Renewed nl nl bits bits [] :=
  ⟨rfl, fun _ _ there => .inl there, by simp⟩

theorem trans (first : Renewed nl middle before between places)
    (second : Renewed middle grown between after more) (early : nl.Grows middle)
    (late : middle.Grows grown) : Renewed nl grown before after (places ++ more) := by
  refine ⟨second.length_eq.trans first.length_eq, ?_, ?_⟩
  · intro place bit there
    rcases first.same_or_used place bit there with still | used
    · exact (second.same_or_used place bit still).imp_right fun used => used.earlier early
    · exact .inr (used.later late)
  · intro place member bit there
    rcases List.mem_append.mp member with before | after
    · exact (first.used place before bit there).later late
    · rcases first.same_or_used place bit there with still | used
      · exact (second.used place after bit still).earlier early
      · exact used.later late

/-- A copy takes the place of a bit that has been used. -/
theorem set {bits : List Datum} {place : Nat} (below : place < bits.length) (copy : Datum)
    (used : nl.UsedSince grown bits[place]) :
    Renewed nl grown bits (bits.set place copy) [place] := by
  have there : bits[place]? = some bits[place] := List.getElem?_eq_getElem below
  refine ⟨List.length_set, ?_, ?_⟩
  · intro other bit found
    by_cases same : place = other
    · subst same
      cases there.symm.trans found
      exact .inr used
    · exact .inl (by rw [List.getElem?_set_ne same, found])
  · intro other member bit found
    obtain rfl := List.mem_singleton.mp member
    cases there.symm.trans found
    exact used

end Renewed

/-- What partial products of some pairs of places leave, in operands renewed on the way. -/
structure Multiplied (nl grown : Netlist) (operands left : Operands) (pairs : List (Nat × Nat)) :
    Prop where
  grows : nl.Grows grown
  a : Renewed nl grown operands.a left.a (pairs.map (·.1))
  b : Renewed nl grown operands.b left.b (pairs.map (·.2))

theorem Multiplied.append {nl middle grown : Netlist} {operands between left : Operands}
    {pairs more : List (Nat × Nat)} (first : Multiplied nl middle operands between pairs)
    (second : Multiplied middle grown between left more) :
    Multiplied nl grown operands left (pairs ++ more) where
  grows := first.grows.trans second.grows
  a := by
    rw [List.map_append]
    exact first.a.trans second.a first.grows second.grows
  b := by
    rw [List.map_append]
    exact first.b.trans second.b first.grows second.grows

theorem multiplied_nil (nl : Netlist) (operands : Operands) :
    Multiplied nl nl operands operands [] :=
  ⟨.refl, .refl nl _, .refl nl _⟩

/-- Both places of all pairs are places of the operands. -/
def Operands.Covers (operands : Operands) (pairs : List (Nat × Nat)) : Prop :=
  ∀ pair ∈ pairs, pair.1 < operands.a.length ∧ pair.2 < operands.b.length

theorem Multiplied.covers {nl grown : Netlist} {operands left : Operands}
    {pairs more : List (Nat × Nat)} (multiplied : Multiplied nl grown operands left pairs)
    (covers : operands.Covers more) : left.Covers more := by
  intro pair member
  rw [multiplied.a.length_eq, multiplied.b.length_eq]
  exact covers pair member

theorem vets_partialProduct (nl : Netlist) (operands : Operands) {i j : Nat}
    (belowA : i < operands.a.length) (belowB : j < operands.b.length) :
    (partialProduct operands i j).Vets nl fun (product, left) grown =>
      product < grown.size ∧ Multiplied nl grown operands left [(i, j)] := by
  unfold partialProduct
  simp only [List.getElem?_eq_getElem belowA, List.getElem?_eq_getElem belowB]
  apply vets_bind
  apply (vets_buffer nl operands.a[i]).imp
  rintro xCopy copiedX ⟨first, -, usedX⟩
  apply vets_bind
  apply (vets_buffer copiedX operands.b[j]).imp
  rintro yCopy copiedY ⟨second, -, usedY⟩
  apply vets_bind
  apply (vets_logic copiedY .and (.wire xCopy) (.wire yCopy)).imp
  rintro product grown ⟨third, below, -, -⟩
  have growth := (first.trans second).trans third
  have usedA := usedX.later (second.trans third)
  have usedB := (usedY.earlier first).later third
  exact vets_pure ⟨below, growth, .set belowA _ usedA, .set belowB _ usedB⟩

theorem vets_diagonalProducts (nl : Netlist) (operands : Operands) {pairs : List (Nat × Nat)}
    (covers : operands.Covers pairs) :
    (diagonalProducts operands pairs).Vets nl fun (column, left) grown =>
      (∃ wires, column = wires.map .wire ∧ grown.Has wires) ∧
        Multiplied nl grown operands left pairs := by
  induction pairs generalizing nl operands with
  | nil => exact vets_pure ⟨⟨[], rfl, nl.has_nil⟩, multiplied_nil nl operands⟩
  | cons pair rest inductionHypothesis =>
      obtain ⟨⟨belowA, belowB⟩, others⟩ := List.forall_mem_cons.mp covers
      have coversRest : operands.Covers rest := others
      rw [diagonalProducts]
      apply vets_bind
      apply (vets_partialProduct nl operands belowA belowB).imp
      rintro ⟨product, between⟩ middle ⟨below, first⟩
      apply vets_bind
      apply (inductionHypothesis middle between (first.covers coversRest)).imp
      rintro ⟨column, left⟩ grown ⟨⟨wires, rfl, has⟩, later⟩
      refine vets_pure ⟨⟨product :: wires, rfl, ?_⟩, first.append later⟩
      exact Netlist.has_cons_iff.mpr ⟨Nat.lt_of_lt_of_le below later.grows.size_le, has⟩

theorem vets_partialProducts (nl : Netlist) (operands : Operands) {array : List (List (Nat × Nat))}
    (covers : operands.Covers array.flatten) :
    (partialProducts operands array).Vets nl fun columns grown =>
      (∃ wires, columns = references wires ∧ ∀ column ∈ wires, grown.Has column) ∧
        ∃ left, Multiplied nl grown operands left array.flatten := by
  induction array generalizing nl operands with
  | nil => exact vets_pure ⟨⟨[], rfl, by simp⟩, operands, multiplied_nil nl operands⟩
  | cons pairs rest inductionHypothesis =>
      rw [List.flatten_cons] at covers
      have coversFirst : operands.Covers pairs :=
        fun pair member => covers pair (List.mem_append_left _ member)
      have coversRest : operands.Covers rest.flatten :=
        fun pair member => covers pair (List.mem_append_right _ member)
      apply vets_bind
      apply (vets_diagonalProducts nl operands coversFirst).imp
      rintro ⟨column, between⟩ middle ⟨⟨wires, rfl, has⟩, first⟩
      apply vets_bind
      apply (inductionHypothesis middle between (first.covers coversRest)).imp
      rintro columns grown ⟨⟨above, rfl, hasAbove⟩, left, later⟩
      refine vets_pure ⟨⟨wires :: above, rfl, ?_⟩, left, ?_⟩
      · exact List.forall_mem_cons.mpr ⟨has.grows later.grows, hasAbove⟩
      · rw [List.flatten_cons]
        exact first.append later

/-- A multiplier that is granted uses all bits of both operands if neither is empty, and only wires
come of it. -/
theorem vets_multiplier (nl : Netlist) (a b : List Datum) :
    (multiplier a b).Vets nl fun outputs grown =>
      (a ≠ [] → b ≠ [] → ∀ reference ∈ a ++ b, nl.UsedSince grown reference) ∧
        ∀ output ∈ outputs, grown.Accepts output := by
  have pairs : ∀ {i j}, (i, j) ∈ (diagonals a.length b.length).flatten ↔
      i < a.length ∧ j < b.length := by
    intro i j
    rw [(flatten_diagonals_perm _ _).mem_iff, List.mem_product, List.mem_range, List.mem_range]
  have covers : Operands.Covers ⟨a, b⟩ (diagonals a.length b.length).flatten :=
    fun _ member => pairs.mp member
  apply vets_bind
  apply (vets_partialProducts nl ⟨a, b⟩ covers).imp
  rintro columns middle ⟨⟨wires, rfl, has⟩, left, multiplied⟩
  obtain ⟨bits, last, runs, run, -⟩ := compress_run has
  apply vets_of_run_ok runs
  constructor
  · intro someA someB reference member
    have lengthA := List.length_pos_of_ne_nil someA
    have lengthB := List.length_pos_of_ne_nil someB
    rcases List.mem_append.mp member with inA | inB
    · obtain ⟨i, there⟩ := List.getElem?_of_mem inA
      have below := (List.getElem?_eq_some_iff.mp there).1
      have place : i ∈ (diagonals a.length b.length).flatten.map (·.1) :=
        List.mem_map.mpr ⟨(i, 0), pairs.mpr ⟨below, lengthB⟩, rfl⟩
      exact (multiplied.a.used i place reference there).later run.grows
    · obtain ⟨j, there⟩ := List.getElem?_of_mem inB
      have below := (List.getElem?_eq_some_iff.mp there).1
      have place : j ∈ (diagonals a.length b.length).flatten.map (·.2) :=
        List.mem_map.mpr ⟨(0, j), pairs.mpr ⟨lengthA, below⟩, rfl⟩
      exact (multiplied.b.used j place reference there).later run.grows
  · intro output member
    obtain ⟨wire, inBits, rfl⟩ := List.mem_map.mp member
    exact Netlist.accepts_wire (run.has_bits wire inBits)

/-! ### Few references -/

theorem Compressor.drain_nil (weight : Nat) : drain ⟨weight, []⟩ = pure ([], weight) := by
  rw [drain, next, nextFrom]
  rfl

theorem Compressor.drain_single (weight : Nat) (x : Datum) (rest : List (List Datum)) :
    drain ⟨weight, [x] :: rest⟩ = (do
      let (bits, top) ← drain ⟨weight + 1, rest⟩
      pure ((weight, x) :: bits, top)) := by
  rw [drain, next, nextFrom]
  rfl

/-- A single reference is passed on without a look. -/
theorem compress_single (x : Datum) : compress [[x]] = pure [x] := by
  rw [compress, compressColumns, drain_single, drain_nil]
  rfl

/-! ### The references that arithmetic is given -/

/-- Every call is refused as a bad request or granted.  When it is granted, each reference that it
was given is used by a gate that was added, and named a wire that was there before that gate; and
what is returned are wires.  The exceptions are references to which nothing is added.  A reference
that stands alone in its column when the compression gets to it is passed on as it is, whatever it
is, as the one bit of its weight; an adder has none of these, and a population count only has its bit
if it is given a single one.  And a multiplier looks at no bit when one of its operands is empty. -/
theorem granted_references (nl : Netlist) :
    (∀ columns : List (List Datum), (compress columns).Vets nl fun outputs grown =>
      ∃ bits, (compressColumns columns).run nl = .ok bits grown ∧ outputs = bits.map (·.2) ∧
        (bits.map (·.1)).Pairwise (· < ·) ∧
        (∀ weight column, columns[weight]? = some column → ∀ reference ∈ column,
          Alone columns weight reference ∨ nl.UsedSince grown reference) ∧
        (∀ weight reference, Alone columns weight reference → (weight, reference) ∈ bits) ∧
        ∀ bit ∈ bits, grown.Accepts bit.2 ∨ Alone columns bit.1 bit.2) ∧
    (∀ a b : List Datum, (adder a b).Vets nl fun outputs grown =>
      (∀ reference ∈ a ++ b, nl.UsedSince grown reference) ∧
      ∀ output ∈ outputs, grown.Accepts output) ∧
    (∀ bits : List Datum, (popcount bits).Vets nl fun outputs grown =>
      (∀ reference ∈ bits, bits = [reference] ∨ nl.UsedSince grown reference) ∧
      ∀ output ∈ outputs, bits = [output] ∨ grown.Accepts output) ∧
    ∀ a b : List Datum, (multiplier a b).Vets nl fun outputs grown =>
      (a ≠ [] → b ≠ [] → ∀ reference ∈ a ++ b, nl.UsedSince grown reference) ∧
      ∀ output ∈ outputs, grown.Accepts output := by
  refine ⟨?_, vets_adder nl, vets_popcount nl, vets_multiplier nl⟩
  intro columns
  apply (vets_compress nl columns).imp
  rintro outputs grown ⟨bits, runs, returned, answers⟩
  refine ⟨bits, runs, returned, answers.increasing, answers.used, ?_, ?_⟩
  · intro weight reference alone
    simpa using answers.passed weight reference alone
  · intro bit member
    rcases answers.given bit member with accepted | ⟨place, weight, alone⟩
    · exact .inl accepted
    · rw [Nat.zero_add] at weight
      exact .inr (weight ▸ alone)

/-- References that name no wire are not always refused.  On three wires, the fourth one is there by
the time that a multiplier copies it; and a single reference is passed on without a look. -/
theorem unmade_wires_granted :
    threeInputs.Reachable ∧
    (multiplier [.int 0] [.int 3]).run threeInputs =
      .ok [.wire 5] (threeInputs.withProduct 0 3) ∧
    ¬threeInputs.Accepts (.int 3) ∧
    (popcount [.int 99]).run threeInputs = .ok [.int 99] threeInputs ∧
    ¬threeInputs.Accepts (.int 99) := by
  have products : (partialProducts ⟨[.int 0], [.int 3]⟩ (diagonals 1 1)).run threeInputs =
      .ok [[.wire 5]] (threeInputs.withProduct 0 3) := rfl
  refine ⟨threeInputs_reachable, ?_, ?_, ?_, ?_⟩
  · simp only [multiplier, List.length_singleton, EStateM.run_bind, products, compress_single]
    rfl
  · simp [Netlist.Accepts, threeInputs, Netlist.size]
  · rw [popcount, compress_single]
    rfl
  · simp [Netlist.Accepts, threeInputs, Netlist.size]

end CarrySave
