/-
Module: CarrySave.Proofs.Circuit.Outputs
Layer: Proofs
Purpose: Outputs that are wires of their own.  The columns of every arithmetic circuit hold distinct
  wires: the inputs of a circuit are distinct, and each product of a multiplier is a new wire.  So the
  bits that come of them are distinct, and the listing of a circuit shows each mark exactly once.
Main exports: Builder.SetsApart, compress_setsApart, adder_setsApart, popcount_setsApart,
  multiplier_setsApart, Netlist.Plain.extends, Synthesis.MarksOutputs, Design.natural_or_negative,
  Design.widths_of_synthesize, Design.marksOutputs_of_natural, wires_consumed_once
-/
import CarrySave.Proofs.Circuit.Addition
import CarrySave.Proofs.Circuit.Consumption
import CarrySave.Proofs.Circuit.ProductArray
import CarrySave.Proofs.Netlist.Marks

namespace CarrySave

open Builder Compressor

/-! ### Operations with distinct outputs -/

/-- On a netlist an operation never fails and makes no inputs, and no wire is two of its outputs. -/
def Builder.SetsApart (operation : Builder (List Datum)) (nl : Netlist) : Prop :=
  ∃ (outputs : List Nat) (grown : Netlist),
    operation.run nl = .ok (outputs.map .wire) grown ∧ nl.Extends grown ∧ grown.Has outputs ∧
    outputs.Nodup

theorem compress_setsApart {nl : Netlist} {columns : List (List Nat)}
    (has : ∀ column ∈ columns, nl.Has column) (distinct : columns.flatten.Nodup) :
    (compress (references columns)).SetsApart nl := by
  obtain ⟨bits, last, runs, run, empty⟩ := compress_run has
  obtain ⟨cells, trace⟩ := run.exists_trace
  exact ⟨bits.map (·.2), last.netlist, runs, run.extends, run.has_bits,
    (trace.consumption empty distinct).bits_nodup⟩

theorem flatten_pairColumns_perm {a b : List Nat} (same : a.length = b.length) :
    (pairColumns a b).flatten.Perm (a ++ b) := by
  induction a generalizing b with
  | nil =>
      obtain rfl := List.length_eq_zero_iff.mp same.symm
      exact .refl _
  | cons x a inductionHypothesis =>
      cases b with
      | nil => simp at same
      | cons y b =>
          have rest := inductionHypothesis (Nat.succ.inj same)
          refine List.Perm.cons x ?_
          exact (List.Perm.cons y rest).trans List.perm_middle.symm

theorem adder_setsApart {nl : Netlist} {a b : List Nat} (hasA : nl.Has a) (hasB : nl.Has b)
    (same : a.length = b.length) (distinct : (a ++ b).Nodup) :
    (adder (a.map .wire) (b.map .wire)).SetsApart nl := by
  rw [adder_eq_compress same]
  exact compress_setsApart (has_pairColumns hasA hasB)
    ((flatten_pairColumns_perm same).nodup_iff.mpr distinct)

theorem popcount_setsApart {nl : Netlist} {bits : List Nat} (has : nl.Has bits)
    (distinct : bits.Nodup) : (popcount (bits.map .wire)).SetsApart nl := by
  have hasColumn : ∀ column ∈ [bits], nl.Has column := by simpa using has
  exact compress_setsApart hasColumn (by simpa using distinct)

/-- Each product stands in a triple of its own. -/
theorem nodup_productColumns (base m n : Nat) : (productColumns base m n).flatten.Nodup := by
  have pairs : (diagonals m n).flatten.Nodup :=
    nodup_of_pairwise_precedes (pairwise_precedes_diagonals m n)
  rw [productColumns, ← List.map_flatten]
  refine pairs.map_on ?_
  intro first memberFirst second memberSecond same
  simp only [tripleAt] at same
  exact (List.idxOf_inj memberFirst).mp (by omega)

/-- The products of a multiplier are distinct, whatever wires its operands share. -/
theorem multiplier_setsApart {nl : Netlist} {a b : List Nat} (hasA : nl.Has a) (hasB : nl.Has b) :
    (multiplier (a.map .wire) (b.map .wire)).SetsApart nl := by
  obtain ⟨array, copiesA, copiesB, products, built⟩ := partialProducts_diagonals hasA hasB
  obtain ⟨columns, grown, again, extended, -⟩ :=
    partialProducts_computes hasA hasB (inside_diagonals a b)
  obtain ⟨-, rfl⟩ := EStateM.Result.ok.inj (products.symm.trans again)
  obtain ⟨outputs, last, runs, further, has, distinct⟩ :=
    compress_setsApart built.has_productColumns (nodup_productColumns _ _ _)
  exact ⟨outputs, last, run_multiplier products runs, extended.trans further, has, distinct⟩

/-! ### Plain netlists -/

theorem Netlist.Grows.name_eq {start grown : Netlist} (growth : start.Grows grown) :
    grown.name = start.name := by
  induction growth with
  | refl => rfl
  | push gate _ _ inductionHypothesis => exact inductionHypothesis

/-- Gates other than inputs have no labels. -/
theorem Netlist.Plain.extends {nl grown : Netlist} (plain : nl.Plain) (extended : nl.Extends grown) :
    grown.Plain := by
  refine ⟨extended.grows.name_eq ▸ plain.name, ?_⟩
  intro wire label found
  have input : wire ∈ nl.inputs := by
    rw [← extended.inputs_eq]
    exact mem_inputs_iff.mpr ⟨label, found⟩
  obtain ⟨before, was⟩ := mem_inputs_iff.mp input
  refine plain.labels wire label ?_
  rw [← extended.grows.getElem?_eq (lt_size_of_getElem? was), found]

theorem Netlist.Plain.withInputs {nl : Netlist} {labels : List String} (plain : nl.Plain)
    (all : ∀ label ∈ labels, Text.Plain label) : (nl.withInputs labels).Plain := by
  unfold Netlist.withInputs
  induction labels generalizing nl with
  | nil => exact plain
  | cons first rest inductionHypothesis =>
      obtain ⟨plainFirst, plainRest⟩ := List.forall_mem_cons.mp all
      refine inductionHypothesis ⟨plain.name, ?_⟩ plainRest
      intro wire label found
      rcases getElem?_push_cases found with earlier | ⟨rfl, added⟩
      · exact plain.labels wire label earlier
      · cases added
        exact plainFirst

theorem plain_makeInputs {nl grown : Netlist} {letter : String} {count : Nat} {wires : List Nat}
    (made : (makeInputs letter count).run nl = .ok wires grown) (plain : nl.Plain)
    (plainLetter : Text.Plain letter) : grown.Plain := by
  have notNegative : ¬((count : Int) < 0) := by omega
  rw [makeInputs, if_neg notNegative, run_inputs] at made
  obtain ⟨-, rfl⟩ := EStateM.Result.ok.inj made
  refine plain.withInputs ?_
  intro label member
  obtain ⟨index, -, rfl⟩ := List.mem_map.mp member
  exact Text.plain_append plainLetter (Text.plain_toString index)

/-! ### Listings of circuits -/

/-- The listing of a circuit shows the mark of each output on the line of its wire and on no other. -/
def Synthesis.MarksOutputs (circuit : Synthesis) : Prop :=
  ∃ (outputs : List Nat) (lines : List String),
    circuit.report.outputs = outputs.map .wire ∧
    circuit.netlist.listing circuit.report.outputs = .ok ("\n".intercalate lines) ∧
    circuit.netlist.Marks outputs lines

theorem Design.marksOutputs_of_build {design : Design} {groups : List (String × List Nat)}
    {operation : Builder (List Datum)} {start : Netlist}
    (built : ∀ {outputs : List Datum} {grown : Netlist}, operation.run start = .ok outputs grown →
      design.build.run { name := design.netlistName } = .ok (groups, outputs) grown)
    (labels : (groups.map (·.1)).Nodup) (plain : start.Plain) (apart : operation.SetsApart start) :
    ∃ circuit, design.synthesize = .ok circuit ∧ circuit.MarksOutputs := by
  obtain ⟨outputs, grown, runs, extended, has, distinct⟩ := apart
  obtain ⟨circuit, synthesized, rfl, -, results⟩ := Design.synthesize_of_build (built runs) labels
  obtain ⟨lines, listed, marks⟩ := Netlist.listing_marks (plain.extends extended) distinct has
  exact ⟨circuit, synthesized, outputs, lines, results, by rw [results, listed], marks⟩

theorem plain_start {name : String} (plain : Text.Plain name) : Netlist.Plain { name } := by
  refine ⟨plain, ?_⟩
  intro wire label found
  simp at found

/-- A circuit of two operands shows its outputs if its operation sets them apart on distinct wires. -/
theorem Design.marksOutputs_two {design : Design} {m n : Nat}
    (operation : List Datum → List Datum → Builder (List Datum))
    (form : design.build = do
      let a ← makeInputs "a" m
      let b ← makeInputs "b" n
      let outputs ← operation (a.map .wire) (b.map .wire)
      pure ([("a", a), ("b", b)], outputs))
    (name : Text.Plain design.netlistName)
    (apart : ∀ (nl : Netlist) (a b : List Nat), nl.Has a → nl.Has b → a.length = m →
      b.length = n → (a ++ b).Nodup → (operation (a.map .wire) (b.map .wire)).SetsApart nl) :
    ∃ circuit, design.synthesize = .ok circuit ∧ circuit.MarksOutputs := by
  obtain ⟨a, b, first, start, madeA, madeB, -, inputs, hasA, hasB, rfl, rfl, built⟩ :=
    design.build_two operation form
  have plain : start.Plain :=
    plain_makeInputs madeB (plain_makeInputs madeA (plain_start name) (by decide)) (by decide)
  exact Design.marksOutputs_of_build built (by simp) plain
    (apart start a b hasA hasB rfl rfl (inputs ▸ start.nodup_inputs))

theorem adder_marksOutputs (n : Nat) :
    ∃ circuit, (Design.adder n).synthesize = .ok circuit ∧ circuit.MarksOutputs := by
  refine Design.marksOutputs_two adder rfl (Text.plain_append (by decide) (Text.plain_toString n)) ?_
  intro nl a b hasA hasB widthA widthB distinct
  exact adder_setsApart hasA hasB (widthA.trans widthB.symm) distinct

theorem multiplier_marksOutputs (m n : Nat) :
    ∃ circuit, (Design.multiplier m n).synthesize = .ok circuit ∧ circuit.MarksOutputs := by
  refine Design.marksOutputs_two multiplier rfl ?_ ?_
  · exact Text.plain_append (Text.plain_append (Text.plain_append (by decide) (Text.plain_toString m))
      (by decide)) (Text.plain_toString n)
  · intro nl a b hasA hasB widthA widthB distinct
    exact multiplier_setsApart hasA hasB

theorem popcount_marksOutputs (n : Nat) :
    ∃ circuit, (Design.popcount n).synthesize = .ok circuit ∧ circuit.MarksOutputs := by
  have name : Text.Plain (Design.popcount n).netlistName :=
    Text.plain_append (by decide) (Text.plain_toString n)
  obtain ⟨wires, start, made, -, inputs, has, rfl, built⟩ :=
    (Design.popcount n).build_one popcount rfl
  exact Design.marksOutputs_of_build built (by simp)
    (plain_makeInputs made (plain_start name) (by decide))
    (popcount_setsApart has (inputs ▸ start.nodup_inputs))

theorem run_makeInputs_negative {label : String} {width : Int} (negative : width < 0)
    (nl : Netlist) : (makeInputs label width).run nl = .error (.negativeInputs (.int width)) nl := by
  rw [makeInputs, if_pos negative]
  rfl

/-- A circuit of a negative width is refused, and all other circuits have natural widths. -/
theorem Design.natural_or_negative (design : Design) :
    (∃ m n : Nat, design = .adder m ∨ design = .popcount m ∨ design = .multiplier m n) ∨
    ∃ width < 0, design.synthesize = .error (.negativeInputs (.int width)) := by
  have natural : ∀ width : Int, width < 0 ∨ ∃ n : Nat, width = n := by
    intro width
    rcases Int.lt_or_le width 0 with negative | positive
    · exact .inl negative
    · exact .inr ⟨width.toNat, (Int.toNat_of_nonneg positive).symm⟩
  cases design with
  | adder width =>
      rcases natural width with negative | ⟨n, rfl⟩
      · exact .inr ⟨width, negative, by simp [synthesize, build, run_makeInputs_negative negative]⟩
      · exact .inl ⟨n, 0, .inl rfl⟩
  | popcount width =>
      rcases natural width with negative | ⟨n, rfl⟩
      · exact .inr ⟨width, negative, by simp [synthesize, build, run_makeInputs_negative negative]⟩
      · exact .inl ⟨n, 0, .inr (.inl rfl)⟩
  | multiplier widthA widthB =>
      rcases natural widthA with negative | ⟨m, rfl⟩
      · exact .inr ⟨widthA, negative, by simp [synthesize, build, run_makeInputs_negative negative]⟩
      · rcases natural widthB with negative | ⟨n, rfl⟩
        · obtain ⟨a, first, madeA, -⟩ :=
            run_makeInputs { name := (Design.multiplier m widthB).netlistName } "a" m
          exact .inr ⟨widthB, negative,
            by simp [synthesize, build, madeA, run_makeInputs_negative negative]⟩
        · exact .inl ⟨m, n, .inr (.inr rfl)⟩

/-- Only circuits of natural widths are built. -/
theorem Design.widths_of_synthesize {design : Design} {circuit : Synthesis}
    (made : design.synthesize = .ok circuit) :
    ∃ m n : Nat, design = .adder m ∨ design = .popcount m ∨ design = .multiplier m n := by
  rcases design.natural_or_negative with natural | ⟨width, -, refused⟩
  · exact natural
  · rw [made] at refused
    cases refused

theorem Design.marksOutputs_of_natural {design : Design} {m n : Nat}
    (natural : design = .adder m ∨ design = .popcount m ∨ design = .multiplier m n) :
    ∃ circuit, design.synthesize = .ok circuit ∧ circuit.MarksOutputs := by
  rcases natural with rfl | rfl | rfl
  · exact adder_marksOutputs m
  · exact popcount_marksOutputs m
  · exact multiplier_marksOutputs m n

/-- Each wire is consumed exactly once, and each output is marked exactly once.  A compression of
distinct existing wires never fails.  Whatever stage it passes, the wires that stand in its columns are
placed wires: those that it is given, and the sums and carries of its cells.  Of all placed wires, some
are bits, each once and used by none of the gates that are added, and every other one is used by two of
them, the exclusive or and the conjunction of one half adder, of which it is one operand.  Circuits of
natural widths are always made, and the listing of any circuit that is made shows the mark of each
output at the end of the line of its wire and of no other line. -/
theorem wires_consumed_once {nl : Netlist} {columns : List (List Nat)}
    (has : ∀ column ∈ columns, nl.Has column) (distinct : columns.flatten.Nodup) :
    (∃ (bits : List (Nat × Nat)) (cells : List Cell) (last : Stage),
      (compressColumns (references columns)).run nl =
        .ok (bits.map fun (weight, bit) => (weight, .wire bit)) (nl.withCells cells) ∧
      Trace ⟨nl, 0, columns, has⟩ bits cells last ∧ last.columns = [] ∧
      let placed := columns.flatten ++ along Cell.outputs nl cells
      (∀ (early : List (Nat × Nat)) (done : List Cell) (stage : Stage),
        Trace ⟨nl, 0, columns, has⟩ early done stage → stage.columns.flatten ⊆ placed) ∧
      (∀ wire ∈ placed,
        let users := (nl.withCells cells).usersFrom nl.size wire
        ((bits.map (·.2)).count wire = 1 ∧ users = []) ∨
        (wire ∉ bits.map (·.2) ∧ ∃ half ∈ along Cell.halves nl cells,
          users = [(.logic .xor half.x half.y, half.sum), (.logic .and half.x half.y, half.sum + 1)] ∧
          [half.x, half.y].count wire = 1)) ∧
      (bits.map (·.2)).Nodup) ∧
    (∀ (m n : Nat), ∀ design ∈ [Design.adder m, .popcount m, .multiplier m n],
      ∃ circuit, design.synthesize = .ok circuit) ∧
    (∀ (design : Design) (circuit : Synthesis), design.synthesize = .ok circuit →
      circuit.MarksOutputs) := by
  refine ⟨?_, ?_, ?_⟩
  · obtain ⟨bits, last, runs, run, empty⟩ := compressColumns_run has
    obtain ⟨cells, trace⟩ := run.exists_trace
    have consumption := trace.consumption empty distinct
    rw [trace.netlist_eq] at runs consumption
    exact ⟨bits, cells, last, runs, trace, empty,
      fun early done stage reached => reached.passed_subset trace empty,
      consumption.consumed, consumption.bits_nodup⟩
  · intro m n design member
    simp only [List.mem_cons, List.not_mem_nil, or_false] at member
    obtain ⟨circuit, made, -⟩ := Design.marksOutputs_of_natural member
    exact ⟨circuit, made⟩
  · intro design circuit made
    obtain ⟨m, n, natural⟩ := Design.widths_of_synthesize made
    obtain ⟨other, same, marks⟩ := Design.marksOutputs_of_natural natural
    cases made.symm.trans same
    exact marks

/-- Three wires in two columns, each of which ends as a bit or in one half adder, and the listing of a
multiplier of three bits by two. -/
theorem wires_consumed_once_threeInputs :
    (∀ column ∈ [[0, 1], [2]], threeInputs.Has column) ∧ [[0, 1], [2]].flatten.Nodup ∧
    (∃ (bits : List (Nat × Nat)) (cells : List Cell),
      (compressColumns (references [[0, 1], [2]])).run threeInputs =
        .ok (bits.map fun (weight, bit) => (weight, .wire bit)) (threeInputs.withCells cells) ∧
      (bits.map (·.2)).Nodup ∧
      ∀ wire ∈ [0, 1, 2], ((threeInputs.withCells cells).usersFrom 3 wire).length =
        if wire ∈ bits.map (·.2) then 0 else 2) ∧
    ∃ circuit, (Design.multiplier 3 2).synthesize = .ok circuit ∧ circuit.MarksOutputs := by
  have has : ∀ column ∈ [[0, 1], [2]], threeInputs.Has column := by decide
  have distinct : [[0, 1], [2]].flatten.Nodup := by decide
  obtain ⟨⟨bits, cells, -, runs, -, -, -, consumed, once⟩, made, marked⟩ :=
    wires_consumed_once has distinct
  obtain ⟨circuit, product⟩ := made 3 2 (.multiplier 3 2) (by simp)
  refine ⟨has, distinct, ⟨bits, cells, runs, once, ?_⟩, circuit, product, marked _ _ product⟩
  intro wire member
  rcases consumed wire (List.mem_append_left _ member) with ⟨yielded, none⟩ | ⟨taken, half, -, two, -⟩
  · have bit : wire ∈ bits.map (·.2) := List.count_pos_iff.mp (by omega)
    rw [if_pos bit]
    exact congrArg List.length none
  · rw [if_neg taken]
    exact congrArg List.length two

end CarrySave
