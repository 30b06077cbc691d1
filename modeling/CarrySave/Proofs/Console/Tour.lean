/-
Module: CarrySave.Proofs.Console.Tour
Layer: Proofs
Purpose: The tour never fails.  Each station builds circuits of natural widths or cells of new inputs,
  gives every input a bit, and shows nothing but what exists, so it has a page; and so have the whole
  tour and the quick one.
Main exports: Tour.granted_costRow, Tour.granted_checkRow, Tour.granted_adderCells,
  Tour.granted_compression, Tour.granted_everything, granted_reportPage, granted_verificationPage,
  granted_quickTour
-/
import CarrySave.Console.Menu
import CarrySave.Proofs.Circuit.Presentation

namespace CarrySave

/-! ### Circuits on pages -/

namespace Tour

/-- A circuit of natural widths has a line in the table of costs. -/
theorem granted_costRow {design : Design} {m n : Nat}
    (natural : design = .adder m ∨ design = .popcount m ∨ design = .multiplier m n) :
    Granted (costRow design) :=
  granted_bind (Design.granted_synthesize natural) fun _ made =>
    granted_bind (Design.granted_overhead made) fun _ _ => granted_pure _

/-- A circuit of natural widths with few inputs has a line in the table of checks. -/
theorem granted_checkRow {design : Design} {m n : Nat}
    (natural : design = .adder m ∨ design = .popcount m ∨ design = .multiplier m n)
    (few : design.inputBits ≤ 24) : Granted (checkRow design) :=
  granted_bind (Design.granted_verify natural few) fun _ _ => granted_pure _

theorem granted_scaling : Granted scaling := by
  refine granted_bind (granted_mapM fun design member => ?_) fun _ _ => granted_pure _
  obtain ⟨width, listed, chosen⟩ := List.mem_flatMap.mp member
  have positive : ∀ width ∈ [(2 : Int), 4, 8, 16, 32], 0 ≤ width := by decide
  obtain ⟨n, rfl⟩ := Int.eq_ofNat_of_zero_le (positive width listed)
  exact granted_costRow (m := n) (n := n) (by simpa using chosen)

theorem granted_verification : Granted verification := by
  refine granted_bind (granted_mapM ?_) fun _ _ => granted_pure _
  simp only [List.forall_mem_cons, List.not_mem_nil, false_implies, implies_true, and_true]
  exact ⟨granted_checkRow (m := 4) (n := 0) (.inl rfl) (by decide),
    granted_checkRow (m := 6) (n := 0) (.inl rfl) (by decide),
    granted_checkRow (m := 8) (n := 0) (.inr (.inl rfl)) (by decide),
    granted_checkRow (m := 12) (n := 0) (.inr (.inl rfl)) (by decide),
    granted_checkRow (m := 3) (n := 3) (.inr (.inr rfl)) (by decide),
    granted_checkRow (m := 4) (n := 5) (.inr (.inr rfl)) (by decide)⟩

/-- The two standard models can be compared on any netlist. -/
theorem granted_compareModels (nl : Netlist) : Granted (nl.compareModels .xaig [.aig]) := by
  have costs : Roster.ofList ([CostModel.xaig, .aig].map fun model => (model.name, model.cost nl)) =
      ⟨[("XAIG", CostModel.xaig.cost nl), ("AIG", CostModel.aig.cost nl)]⟩ :=
    Roster.ofList_of_nodup (by simp [CostModel.xaig, CostModel.aig])
  have base : (Roster.get? (⟨[("XAIG", CostModel.xaig.cost nl), ("AIG", CostModel.aig.cost nl)]⟩ :
      Roster String Nat) CostModel.xaig.name).getD 0 = CostModel.xaig.cost nl := rfl
  have dearer : CostModel.aig.cost nl ≤ 3 * CostModel.xaig.cost nl := by
    exact_mod_cast nl.tally.aig_le
  simp only [Netlist.compareModels, costs, base]
  refine granted_bind (granted_mapM ?_) fun _ _ => granted_pure _
  simp only [List.forall_mem_cons, List.not_mem_nil, false_implies, implies_true, and_true]
  exact ⟨granted_bind (granted_relativeCost (by omega)) fun _ _ => granted_pure _,
    granted_bind (granted_relativeCost dearer) fun _ _ => granted_pure _⟩

theorem granted_graph : Granted graph :=
  granted_bind (Design.granted_synthesize (m := 2) (n := 2) (.inr (.inr rfl))) fun _ made =>
    granted_bind (Design.granted_summary made) fun _ _ =>
      granted_bind (granted_compareModels _) fun _ _ =>
        granted_bind (Design.granted_listing made) fun _ _ => granted_pure _

/-! ### Cells and columns -/

section Signals

variable {nl : Netlist} {assignment : Assignment}

/-- When every input has one byte, a single bit can be read from each wire. -/
theorem exists_signals (ordered : nl.Ordered) (covers : assignment.Covers nl) :
    ∃ signals, nl.evaluate assignment = .ok signals ∧
      ∀ wire < nl.size, ∃ bit, readOutputs signals [.wire wire] = .ok (.one bit) := by
  obtain ⟨level, evaluated, -, -⟩ := Netlist.evaluate_settled ordered covers
  refine ⟨_, evaluated, fun wire below => ⟨numberOn level [wire], ?_⟩⟩
  have inside : ∀ other ∈ [wire], other < nl.size := by simpa using below
  exact readOutputs_signalsOf level inside

theorem granted_shownBit {signals : Array Signal} {wire : Nat} {bit : Int}
    (read : readOutputs signals [.wire wire] = .ok (.one bit)) : Granted (shownBit signals wire) :=
  granted_bind ⟨_, read⟩ fun value found => by
    cases read.symm.trans found
    exact granted_pure _

/-- The bits of a number can be given to the inputs of a netlist. -/
theorem exists_assignBits {wires : List Nat} (inputs : nl.inputs = wires) (value : Int) :
    ∃ assignment, assignBits (wires.map .wire) (.one value) = .ok assignment ∧
      assignment.Covers nl := by
  have distinct : wires.Nodup := inputs ▸ nl.nodup_inputs
  have keys : ((bitEntries wires value).map (·.1)).Nodup := by
    rw [keys_bitEntries]
    exact distinct.map Int.ofNat_injective
  have covers : (Assignment.ofOperands [(wires, value)]).Covers nl :=
    covers_ofOperands (by simpa using distinct) (by simp [inputs])
  refine ⟨⟨bitEntries wires value⟩, ?_, by simpa [Assignment.ofOperands] using covers⟩
  rw [assignBits_single, Roster.ofList_of_nodup keys]

/-- Ones can be given to the inputs of a netlist. -/
theorem exists_ones {wires : List Nat} (inputs : nl.inputs = wires) :
    ∃ assignment, Assignment.ofPairs (wires.map fun wire : Nat => (.wire wire, .one 1)) = .ok assignment ∧
      assignment.Covers nl := by
  have distinct : wires.Nodup := inputs ▸ nl.nodup_inputs
  have keys : ((wires.map fun wire : Nat => ((wire : Int), Batch.one (1 : Int))).map (·.1)).Nodup := by
    rw [List.map_map]
    exact distinct.map Int.ofNat_injective
  refine ⟨⟨wires.map fun wire : Nat => ((wire : Int), .one 1)⟩, ?_, ?_⟩
  · rw [ofPairs_checked fun _ _ => rfl, Roster.ofList_of_nodup keys]
  · intro wire input
    have member : ((wire : Int), Batch.one (1 : Int)) ∈
        wires.map fun wire : Nat => ((wire : Int), Batch.one (1 : Int)) :=
      List.mem_map_of_mem (inputs ▸ input)
    exact ⟨1, Roster.get?_of_mem keys member, by decide, by decide⟩

end Signals

/-- A full adder of new inputs is built, on existing wires. -/
theorem fullAdderCell_spec :
    ∃ (inputs : List Nat) (sum carry : Nat) (full : Netlist),
      fullAdderCell = .ok ((inputs, sum, carry), full) ∧ full.Ordered ∧ full.inputs = inputs ∧
      full.Has inputs ∧ sum < full.size ∧ carry < full.size := by
  obtain ⟨wires, start, made, grows, inputs, has, three⟩ :=
    run_makeInputs { name := "full-adder" } "x" 3
  obtain ⟨x, y, z, rfl⟩ := List.length_eq_three.mp three
  obtain ⟨xBelow, yBelow, zBelow⟩ : x < start.size ∧ y < start.size ∧ z < start.size := by
    simpa [Netlist.has_nil] using has
  rw [Nat.cast_ofNat] at made
  have added := Netlist.grows_withFullAdder xBelow yBelow zBelow
  refine ⟨[x, y, z], start.size + 2, start.size + 4, start.withFullAdder x y z, ?_, ?_, ?_,
    has.grows added, by simp, by simp⟩
  · simp only [fullAdderCell, buildAlone, EStateM.run_bind, made,
      run_fullAdder xBelow yBelow zBelow, EStateM.run_pure]
  · exact (grows.trans added).ordered (Netlist.ordered_empty _)
  · have all : start.inputs = [x, y, z] := inputs
    simp [Netlist.withFullAdder, Netlist.withHalfAdder, Netlist.inputs_push, all]

theorem granted_halfAdderCell : Granted halfAdderCell := by
  obtain ⟨wires, start, made, -, -, has, two⟩ := run_makeInputs { name := "half-adder" } "p" 2
  obtain ⟨p, q, rfl⟩ := List.length_eq_two.mp two
  obtain ⟨pBelow, qBelow⟩ : p < start.size ∧ q < start.size := by
    simpa [Netlist.has_nil] using has
  rw [Nat.cast_ofNat] at made
  refine ⟨([p, q], start.withHalfAdder p q), ?_⟩
  simp only [halfAdderCell, buildAlone, EStateM.run_bind, made, run_halfAdder pBelow qBelow,
    EStateM.run_pure]

theorem granted_adderCells : Granted adderCells := by
  obtain ⟨inputs, sum, carry, full, built, ordered, all, has, sumBelow, carryBelow⟩ :=
    fullAdderCell_spec
  refine granted_bind ⟨_, built⟩ fun _ found => ?_
  cases built.symm.trans found
  refine granted_bind granted_halfAdderCell fun _ _ => ?_
  refine granted_bind (granted_mapM fun index _ => ?_) fun _ _ =>
    granted_bind ?_ fun _ _ => granted_pure _
  · obtain ⟨assignment, assigned, covers⟩ := exists_assignBits all index
    obtain ⟨signals, evaluated, shown⟩ := exists_signals ordered covers
    have granted : ∀ {wire : Nat}, wire < full.size → Granted (shownBit signals wire) := by
      intro wire below
      obtain ⟨bit, read⟩ := shown wire below
      exact granted_shownBit read
    simp only [assigned, evaluated, bind, Except.bind]
    exact granted_bind (granted_mapM fun wire member => granted (has wire member)) fun _ _ =>
      granted_bind (granted sumBelow) fun _ _ =>
        granted_bind (granted carryBelow) fun _ _ => granted_pure _
  · have marks := Netlist.outputMarks_wires [sum, carry]
    exact granted_bind ⟨_, marks⟩ fun _ _ => granted_pure _

/-- Two columns of new inputs are compressed to bits on existing wires. -/
theorem compression_spec :
    ∃ (low high : List Nat) (bits : List (Nat × Nat)) (netlist : Netlist),
      (buildAlone "columns" do
        let low ← makeInputs "u" 5
        let high ← makeInputs "v" 2
        let bits ← compressColumns [low.map .wire, high.map .wire]
        pure (low ++ high, bits)) =
        .ok ((low ++ high, bits.map fun (weight, bit) => (weight, .wire bit)), netlist) ∧
      netlist.Ordered ∧ netlist.inputs = low ++ high ∧ netlist.Has (bits.map (·.2)) := by
  obtain ⟨low, first, madeLow, growsLow, inputsLow, hasLow, -⟩ :=
    run_makeInputs { name := "columns" } "u" 5
  obtain ⟨high, start, madeHigh, growsHigh, inputsHigh, hasHigh, -⟩ := run_makeInputs first "v" 2
  rw [Nat.cast_ofNat] at madeLow madeHigh
  have has : ∀ column ∈ [low, high], start.Has column := by
    simpa using ⟨hasLow.grows growsHigh, hasHigh⟩
  obtain ⟨bits, last, compressed, run, -⟩ := compressColumns_run has
  change (compressColumns [low.map .wire, high.map .wire]).run start = _ at compressed
  refine ⟨low, high, bits, last.netlist, ?_, ?_, ?_, run.has_bits⟩
  · simp only [buildAlone, EStateM.run_bind, madeLow, madeHigh, compressed, EStateM.run_pure]
  · exact ((growsLow.trans growsHigh).trans run.grows).ordered (Netlist.ordered_empty _)
  · rw [run.extends.inputs_eq, inputsHigh, inputsLow]
    rfl

theorem granted_compression : Granted compression := by
  obtain ⟨low, high, bits, netlist, built, ordered, all, has⟩ := compression_spec
  obtain ⟨ones, assigned, covers⟩ := exists_ones all
  obtain ⟨signals, evaluated, shown⟩ := exists_signals ordered covers
  refine granted_bind ⟨_, built⟩ fun _ found => ?_
  cases built.symm.trans found
  refine granted_bind ⟨_, assigned⟩ fun _ found => ?_
  cases assigned.symm.trans found
  refine granted_bind ⟨_, evaluated⟩ fun _ found => ?_
  cases evaluated.symm.trans found
  refine granted_bind (granted_mapM fun place member => ?_) fun _ _ => granted_pure _
  obtain ⟨⟨weight, bit⟩, listed, rfl⟩ := List.mem_map.mp member
  obtain ⟨value, read⟩ := shown bit (has bit (List.mem_map_of_mem listed))
  refine granted_bind ⟨_, read⟩ fun _ found => ?_
  cases read.symm.trans found
  exact granted_pure _

/-! ### Tours -/

/-- The whole tour has a page. -/
theorem granted_everything : Granted everything := by
  refine granted_bind (granted_mapM ?_) fun _ _ => granted_pure _
  simp only [List.forall_mem_cons, List.not_mem_nil, false_implies, implies_true, and_true, id]
  exact ⟨granted_pure _, granted_adderCells, granted_compression, granted_scaling,
    granted_verification, granted_graph⟩

end Tour

/-! ### Pages on request -/

section Pages

variable {kind : String} {width : Int} {design : Design}

/-- There is a report on every circuit that is made. -/
theorem granted_reportPage {circuit : Synthesis} (ordered : Design.ofKind kind width = .ok design)
    (made : design.synthesize = .ok circuit) : Granted (reportPage kind width) := by
  refine granted_bind ⟨design, ordered⟩ fun _ same => ?_
  cases ordered.symm.trans same
  refine granted_bind ⟨circuit, made⟩ fun _ same => ?_
  cases made.symm.trans same
  exact granted_bind (Design.granted_summary made) fun _ _ =>
    granted_bind (Design.granted_listing made) fun _ _ => granted_pure _

/-- There is a page on every check that is made. -/
theorem granted_verificationPage (ordered : Design.ofKind kind width = .ok design)
    (checked : Granted design.verify) : Granted (verificationPage kind width) := by
  refine granted_bind ⟨design, ordered⟩ fun _ same => ?_
  cases ordered.symm.trans same
  exact granted_bind checked fun _ _ => granted_pure _

end Pages

/-- The quick tour has a page. -/
theorem granted_quickTour : Granted quickTour := by
  have natural : Design.multiplier sampleWidth sampleWidth = .multiplier (4 : Nat) (4 : Nat) := rfl
  have checked : Granted (verificationPage "multiplier" sampleWidth) :=
    granted_verificationPage rfl (Design.granted_verify (.inr (.inr natural)) (by decide))
  exact granted_bind (Design.granted_synthesize (.inr (.inr natural))) fun _ made =>
    granted_bind (Design.granted_summary made) fun _ _ =>
      granted_bind checked fun _ _ => granted_pure _

end CarrySave
