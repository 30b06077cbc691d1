/-
Module: CarrySave.Proofs.Circuit.Presentation
Layer: Proofs
Purpose: Circuits that can be shown and checked.  A circuit under the second standard model costs at
  most three times what it costs under the first, so its overhead can always be told.  A circuit of
  natural widths has a summary and a listing, and it can be checked when it has few enough inputs;
  any other circuit is refused for its width or for its number of inputs.
Main exports: Granted, granted_bind, granted_mapM, Report.granted_summary,
  Design.report_eq_collect, Design.granted_listing, Design.granted_verify, Design.verify_cases,
  Design.kinds, Design.synthesize_of_negative, Design.negative_of_unmade
-/
import CarrySave.Proofs.Circuit.Multiplication
import CarrySave.Proofs.Circuit.Outputs
import CarrySave.Proofs.Circuit.Population
import CarrySave.Proofs.Decimal.Range
import CarrySave.Proofs.Netlist.Tally
import CarrySave.Proofs.Signal.Exhaustion

namespace CarrySave

/-! ### Actions that succeed -/

section Granted

variable {ε α β : Type}

/-- An action has a result. -/
def Granted (action : Except ε α) : Prop :=
  ∃ value, action = .ok value

theorem granted_pure (value : α) : Granted (pure value : Except ε α) :=
  ⟨value, rfl⟩

theorem bind_of_ok {first : Except ε α} {value : α} (done : first = .ok value)
    (next : α → Except ε β) : (first >>= next) = next value := by
  rw [done]
  rfl

theorem bind_of_error {first : Except ε α} {error : ε} (failed : first = .error error)
    (next : α → Except ε β) : (first >>= next) = .error error := by
  rw [failed]
  rfl

/-- Two actions in a row have a result if the first has one and the second has one after it. -/
theorem granted_bind {first : Except ε α} {next : α → Except ε β} (one : Granted first)
    (two : ∀ value, first = .ok value → Granted (next value)) : Granted (first >>= next) := by
  obtain ⟨value, rfl⟩ := one
  exact two value rfl

theorem granted_mapM {action : α → Except ε β} {items : List α}
    (each : ∀ item ∈ items, Granted (action item)) : Granted (items.mapM action) := by
  induction items with
  | nil => exact granted_pure _
  | cons item rest inductionHypothesis =>
      obtain ⟨first, others⟩ := List.forall_mem_cons.mp each
      rw [List.mapM_cons]
      exact granted_bind first fun _ _ =>
        granted_bind (inductionHypothesis others) fun _ _ => granted_pure _

end Granted

/-! ### Reports -/

/-- A cost of at most three times a base has a ratio to it. -/
theorem granted_relativeCost {value base : Nat} (le : value ≤ 3 * base) :
    Granted (relativeCost value base) := by
  rw [relativeCost]
  split
  case isTrue => exact granted_pure _
  case isFalse nonzero =>
    have positive : base ≠ 0 := by simpa using nonzero
    have fourfold : value ≤ base * 2 ^ 2 := by omega
    obtain ⟨relative, found⟩ := Decimal.exists_ratio positive fourfold (by decide)
    exact ⟨relative, by rw [ratio, found]⟩

namespace Report

variable (name : String) (nl : Netlist) (inputs : Roster String (List Datum)) (outputs : List Datum)

theorem granted_overhead : Granted (collect name nl inputs outputs).overhead :=
  granted_relativeCost (by exact_mod_cast nl.tally.aig_le)

theorem granted_summary : Granted ((collect name nl inputs outputs).summary nl) :=
  granted_bind (granted_overhead name nl inputs outputs) fun _ _ => granted_pure _

end Report

/-! ### Circuits -/

namespace Design

/-- The report on a circuit is the one on its netlist. -/
theorem report_eq_collect {design : Design} {circuit : Synthesis}
    (made : design.synthesize = .ok circuit) :
    ∃ inputs outputs,
      circuit.report = Report.collect design.name circuit.netlist inputs outputs := by
  rw [synthesize] at made
  split at made
  · cases made
    exact ⟨_, _, rfl⟩
  · cases made

theorem granted_synthesize {design : Design} {m n : Nat}
    (natural : design = .adder m ∨ design = .popcount m ∨ design = .multiplier m n) :
    Granted design.synthesize := by
  obtain ⟨circuit, made, -⟩ := marksOutputs_of_natural natural
  exact ⟨circuit, made⟩

theorem granted_overhead {design : Design} {circuit : Synthesis}
    (made : design.synthesize = .ok circuit) : Granted circuit.report.overhead := by
  obtain ⟨inputs, outputs, collected⟩ := report_eq_collect made
  rw [collected]
  exact Report.granted_overhead _ _ _ _

theorem granted_summary {design : Design} {circuit : Synthesis}
    (made : design.synthesize = .ok circuit) :
    Granted (circuit.report.summary circuit.netlist) := by
  obtain ⟨inputs, outputs, collected⟩ := report_eq_collect made
  rw [collected]
  exact Report.granted_summary _ _ _ _

/-- Every circuit that is made can be listed with its outputs marked. -/
theorem granted_listing {design : Design} {circuit : Synthesis}
    (made : design.synthesize = .ok circuit) :
    Granted (circuit.netlist.listing circuit.report.outputs) := by
  obtain ⟨m, n, natural⟩ := widths_of_synthesize made
  obtain ⟨other, same, outputs, lines, -, listed, -⟩ := marksOutputs_of_natural natural
  cases made.symm.trans same
  exact ⟨_, listed⟩

/-! ### Checks -/

/-- A circuit with few inputs, all of which are operands, is checked if its operation computes a
number of few bits. -/
theorem granted_verify_of_build {design : Design} {groups : List (String × List Nat)}
    {operation : Builder (List Datum)} {start : Netlist} {width : Nat}
    {number : (Nat → Bool) → Int}
    (built : ∀ {outputs : List Datum} {grown : Netlist}, operation.run start = .ok outputs grown →
      design.build.run { name := design.netlistName } = .ok (groups, outputs) grown)
    (labels : (groups.map (·.1)).Nodup) (ordered : start.Ordered)
    (inputs : start.inputs = (groups.map (·.2)).flatten)
    (computes : operation.Computes start width number) (narrow : width ≤ 63)
    (bits : design.inputBits = (groups.map (·.2)).flatten.length) (few : design.inputBits ≤ 24) :
    Granted design.verify := by
  rw [bits] at few
  have fewWires : (groups.map (·.2)).flatten.length ≤ 24 := by exact_mod_cast few
  obtain ⟨outputs, grown, runs, extended, has, count, -⟩ := computes
  obtain ⟨circuit, made, rfl, wires, results⟩ := synthesize_of_build (built runs) labels
  have allInputs : circuit.netlist.inputs = (groups.map (·.2)).flatten :=
    extended.inputs_eq.trans inputs
  have checkable : circuit.report.Checkable circuit.netlist (groups.map (·.2)) outputs :=
    { inputs_eq := wires
      outputs_eq := results
      distinct := allInputs ▸ circuit.netlist.nodup_inputs
      all_inputs := fun wire input => allInputs ▸ input
      has_outputs := has
      few_inputs := fewWires
      few_outputs := count.trans_le narrow }
  obtain ⟨verdict, checked⟩ :=
    Netlist.exists_check_rule (extended.grows.ordered ordered) checkable design.intended
  refine ⟨verdict, ?_⟩
  simp only [verify, bits, requireBits_of_le fewWires, made, bind, Except.bind, checked]

/-- A circuit of natural widths with at most twenty-four inputs is checked. -/
theorem granted_verify {design : Design} {m n : Nat}
    (natural : design = .adder m ∨ design = .popcount m ∨ design = .multiplier m n)
    (few : design.inputBits ≤ 24) : Granted design.verify := by
  rcases natural with rfl | rfl | rfl
  · obtain ⟨a, b, first, start, -, -, ordered, inputs, hasA, hasB, rfl, widthB, built⟩ :=
      (Design.adder m).build_two CarrySave.adder rfl
    refine granted_verify_of_build built (by simp) ordered (by simpa using inputs)
      (adder_computes hasA hasB widthB.symm) ?_ ?_ few
    · simp only [inputBits] at few
      split <;> omega
    · simp [inputBits, widthB]
      ring
  · obtain ⟨wires, start, -, ordered, inputs, has, rfl, built⟩ :=
      (Design.popcount m).build_one CarrySave.popcount rfl
    refine granted_verify_of_build built (by simp) ordered (by simpa using inputs)
      (popcount_computes has) ?_ ?_ few
    · simp only [inputBits] at few
      have size : wires.length.size ≤ 24 := Nat.size_le.mpr (by omega)
      omega
    · simp [inputBits]
  · obtain ⟨a, b, first, start, -, -, ordered, inputs, hasA, hasB, rfl, rfl, built⟩ :=
      (Design.multiplier m n).build_two CarrySave.multiplier rfl
    refine granted_verify_of_build built (by simp) ordered (by simpa using inputs)
      (multiplier_computes hasA hasB) ?_ ?_ few
    · simp only [inputBits] at few
      split_ifs <;> omega
    · simp [inputBits]

/-- A circuit with too many inputs is refused before it is built. -/
theorem verify_of_many {design : Design} (many : 24 < design.inputBits) :
    design.verify = .error (.tooManyToCheck design.requestName design.inputBits) := by
  have refused : requireBits design.requestName design.inputBits =
      .error (.tooManyToCheck design.requestName design.inputBits) := if_pos many
  exact bind_of_error refused _

/-- A circuit with few inputs that cannot be built is refused for that reason. -/
theorem verify_of_unmade {design : Design} {error : Error} (few : design.inputBits ≤ 24)
    (unmade : design.synthesize = .error error) : design.verify = .error error := by
  have allowed : requireBits design.requestName design.inputBits = .ok () :=
    if_neg (Int.not_lt.mpr few)
  exact (bind_of_ok allowed _).trans (bind_of_error unmade _)

/-- A check is made unless the circuit has too many inputs or is refused. -/
theorem verify_cases (design : Design) :
    Granted design.verify ∨ 24 < design.inputBits ∨
      ∃ error, design.synthesize = .error error := by
  rcases Int.lt_or_le 24 design.inputBits with many | few
  · exact .inr (.inl many)
  · rcases design.natural_or_negative with ⟨m, n, natural⟩ | ⟨width, -, refused⟩
    · exact .inl (granted_verify natural few)
    · exact .inr (.inr ⟨_, refused⟩)

/-! ### Circuits by kind -/

/-- The kinds of circuits. -/
def kinds : List String :=
  ["adder", "popcount", "multiplier"]

variable {kind : String} {width : Int} {design : Design}

theorem ofKind_of_mem (known : kind ∈ kinds) (width : Int) :
    ∃ design, ofKind kind width = .ok design := by
  simp only [kinds, List.mem_cons, List.not_mem_nil, or_false] at known
  rcases known with rfl | rfl | rfl
  · exact ⟨.adder width, rfl⟩
  · exact ⟨.popcount width, rfl⟩
  · exact ⟨.multiplier width width, rfl⟩

theorem ofKind_of_notMem (unknown : kind ∉ kinds) (width : Int) :
    ofKind kind width = .error (.unknownCircuit kind) := by
  unfold ofKind
  split
  case h_1 => exact absurd (by decide) unknown
  case h_2 => exact absurd (by decide) unknown
  case h_3 => exact absurd (by decide) unknown
  case h_4 => rfl

/-- A circuit of a negative width is refused for its width. -/
theorem synthesize_of_negative (known : ofKind kind width = .ok design) (negative : width < 0) :
    design.synthesize = .error (.negativeInputs (.int width)) := by
  unfold ofKind at known
  split at known <;> cases known <;>
    simp [synthesize, build, run_makeInputs_negative negative]

theorem inputBits_of_negative (known : ofKind kind width = .ok design) (negative : width < 0) :
    design.inputBits < 0 := by
  unfold ofKind at known
  split at known <;> cases known <;> simp only [inputBits] <;> omega

/-- A circuit of a known kind is only refused if its width is negative. -/
theorem negative_of_unmade {error : Error} (known : ofKind kind width = .ok design)
    (unmade : design.synthesize = .error error) : width < 0 := by
  rcases Int.lt_or_le width 0 with negative | positive
  · exact negative
  · obtain ⟨n, rfl⟩ := Int.eq_ofNat_of_zero_le positive
    have natural : design = .adder n ∨ design = .popcount n ∨ design = .multiplier n n := by
      unfold ofKind at known
      split at known <;> cases known <;> simp
    obtain ⟨circuit, made⟩ := granted_synthesize natural
    cases made.symm.trans unmade

end Design

end CarrySave
