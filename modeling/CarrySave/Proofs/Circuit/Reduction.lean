/-
Module: CarrySave.Proofs.Circuit.Reduction
Layer: Proofs
Purpose: Compression as a relation between stages.  A stage is a netlist with columns of its
  wires, the lowest of which has a given weight.  One step takes a column off, with or without
  a bit, or adds the first three wires of a column.  Advancing a compression of existing wires
  never fails and runs such steps up to the next bit, and draining it runs them to the end, so
  whatever each step preserves holds of every compression.
Main exports: Netlist.Has, Compressor.Stage, Compressor.Step, Compressor.Run,
  Compressor.next_run, Compressor.drain_run
-/
import CarrySave.Circuit.Compressor
import CarrySave.Proofs.Netlist.Growth

namespace CarrySave

/-! ### Existing wires -/

/-- All wires of a list exist. -/
def Netlist.Has (nl : Netlist) (wires : List Nat) : Prop :=
  ∀ wire ∈ wires, wire < nl.size

instance (nl : Netlist) (wires : List Nat) : Decidable (nl.Has wires) :=
  inferInstanceAs (Decidable (∀ wire ∈ wires, wire < nl.size))

theorem Netlist.Has.grows {nl grown : Netlist} {wires : List Nat} (has : nl.Has wires)
    (growth : nl.Grows grown) : grown.Has wires := by
  intro wire member
  exact Nat.lt_of_lt_of_le (has wire member) growth.size_le

theorem Netlist.has_nil (nl : Netlist) : nl.Has [] := by
  intro wire member
  cases member

@[simp] theorem Netlist.has_cons_iff {nl : Netlist} {wire : Nat} {wires : List Nat} :
    nl.Has (wire :: wires) ↔ wire < nl.size ∧ nl.Has wires := by
  simp [Has]

@[simp] theorem Netlist.has_append_iff {nl : Netlist} {wires more : List Nat} :
    nl.Has (wires ++ more) ↔ nl.Has wires ∧ nl.Has more := by
  simp [Has, or_imp, forall_and]

/-! ### Growth by cells -/

theorem Netlist.grows_withHalfAdder {nl : Netlist} {x y : Nat} (xBelow : x < nl.size)
    (yBelow : y < nl.size) : nl.Grows (nl.withHalfAdder x y) := by
  refine .push _ (.push _ .refl ?_) ?_
  · simp [Gate.operands, xBelow, yBelow]
  · simp only [Gate.operands, List.forall_mem_cons, size_push]
    exact ⟨Nat.lt_succ_of_lt xBelow, Nat.lt_succ_of_lt yBelow, by simp⟩

theorem Netlist.grows_withFullAdder {nl : Netlist} {x y z : Nat} (xBelow : x < nl.size)
    (yBelow : y < nl.size) (zBelow : z < nl.size) : nl.Grows (nl.withFullAdder x y z) := by
  have first := nl.grows_withHalfAdder xBelow yBelow
  have second : (nl.withHalfAdder x y).Grows ((nl.withHalfAdder x y).withHalfAdder nl.size z) :=
    grows_withHalfAdder (by simp) (by simp; omega)
  exact .push _ (first.trans second) (by simp [Gate.operands])

namespace Compressor

/-! ### Stages and steps -/

/-- A compression of existing wires at some point of its work. -/
structure Stage where
  netlist : Netlist
  /-- The weight of the lowest column. -/
  weight : Nat
  columns : List (List Nat)
  has : ∀ column ∈ columns, netlist.Has column

/-- Columns of wires, as they are handed to a compression. -/
def references (columns : List (List Nat)) : List (List Datum) :=
  columns.map fun column => column.map .wire

/-- The compression that a stage is a stage of. -/
def Stage.compressor (stage : Stage) : Compressor :=
  ⟨stage.weight, references stage.columns⟩

/-- One step of a compression, with the bit that it gives, if any. -/
inductive Step : Stage → List (Nat × Nat) → Stage → Prop where
  /-- A column without wires gives no bit. -/
  | skip {nl : Netlist} {weight : Nat} {rest : List (List Nat)} (before after) :
      Step ⟨nl, weight, [] :: rest, before⟩ [] ⟨nl, weight + 1, rest, after⟩
  /-- A wire that is alone in its column is the bit of the column. -/
  | keep {nl : Netlist} {weight x : Nat} {rest : List (List Nat)} (before after) :
      Step ⟨nl, weight, [x] :: rest, before⟩ [(weight, x)] ⟨nl, weight + 1, rest, after⟩
  /-- The sum of the last two wires is the bit of the column, and their carry goes up. -/
  | half {nl : Netlist} {weight x y : Nat} {rest : List (List Nat)} (before after) :
      Step ⟨nl, weight, [x, y] :: rest, before⟩ [(weight, nl.size)]
        ⟨nl.withHalfAdder x y, weight + 1, deposit (nl.size + 1) rest, after⟩
  /-- The sum of the first three wires stays in the column, and their carry goes up. -/
  | full {nl : Netlist} {weight x y z : Nat} {more : List Nat} {rest : List (List Nat)}
      (before after) :
      Step ⟨nl, weight, (x :: y :: z :: more) :: rest, before⟩ []
        ⟨nl.withFullAdder x y z, weight,
          (more ++ [nl.size + 2]) :: deposit (nl.size + 4) rest, after⟩

/-- Steps in a row, with the bits that they give in order. -/
inductive Run : Stage → List (Nat × Nat) → Stage → Prop where
  | refl (stage : Stage) : Run stage [] stage
  | step {before middle after : Stage} {first later : List (Nat × Nat)}
      (head : Step before first middle) (tail : Run middle later after) :
      Run before (first ++ later) after

/-- Runs compose, and their bits follow each other. -/
theorem Run.trans {first middle last : Stage} {early late : List (Nat × Nat)}
    (one : Run first early middle) (two : Run middle late last) :
    Run first (early ++ late) last := by
  induction one with
  | refl => exact two
  | step head tail inductionHypothesis =>
      rw [List.append_assoc]
      exact .step head (inductionHypothesis two)

/-! ### Columns that stay columns of existing wires -/

theorem has_deposit {nl : Netlist} {wire : Nat} {columns : List (List Nat)}
    (below : wire < nl.size) (has : ∀ column ∈ columns, nl.Has column) :
    ∀ column ∈ deposit wire columns, nl.Has column := by
  cases columns with
  | nil => simpa [deposit] using ⟨below, nl.has_nil⟩
  | cons first rest =>
      simp only [deposit, List.forall_mem_cons] at has ⊢
      refine ⟨?_, has.2⟩
      simpa using ⟨has.1, below, nl.has_nil⟩

theorem has_columns_grows {nl grown : Netlist} {columns : List (List Nat)}
    (has : ∀ column ∈ columns, nl.Has column) (growth : nl.Grows grown) :
    ∀ column ∈ columns, grown.Has column :=
  fun column member => (has column member).grows growth

@[simp] theorem references_cons (column : List Nat) (rest : List (List Nat)) :
    references (column :: rest) = column.map .wire :: references rest := rfl

theorem references_deposit (wire : Nat) (columns : List (List Nat)) :
    references (deposit wire columns) = deposit (.wire wire) (references columns) := by
  cases columns <;> simp [deposit, references]

/-! ### Advancing and draining -/

/-- What it means that a stage is advanced to an outcome, in a netlist that has grown: either
its columns run out without a bit, or they give one bit and leave a later stage. -/
def Reaches (start : Stage) {bound : Nat} (outcome : Advance bound) (grown : Netlist) : Prop :=
  match outcome with
  | .ended top =>
      ∃ last : Stage, Run start [] last ∧ last.netlist = grown ∧ last.weight = top ∧
        last.columns = []
  | .bit weight wire rest _ =>
      ∃ (bit : Nat) (later : Stage), wire = .wire bit ∧ rest = later.compressor ∧
        later.netlist = grown ∧ Run start [(weight, bit)] later

theorem reaches_widen {start : Stage} {bound larger : Nat} {outcome : Advance bound}
    {grown : Netlist} (le : bound ≤ larger) :
    Reaches start (outcome.widen le) grown ↔ Reaches start outcome grown := by
  cases outcome <;> exact Iff.rfl

/-- What a stage reaches after a step without a bit, it reaches from before the step. -/
theorem Reaches.after_step {start middle : Stage} {bound : Nat} {outcome : Advance bound}
    {grown : Netlist} (step : Step start [] middle) (reaches : Reaches middle outcome grown) :
    Reaches start outcome grown := by
  cases outcome with
  | ended top =>
      obtain ⟨last, run, done⟩ := reaches
      exact ⟨last, .step step run, done⟩
  | bit weight wire rest less =>
      obtain ⟨bit, later, sameWire, sameRest, sameNetlist, run⟩ := reaches
      exact ⟨bit, later, sameWire, sameRest, sameNetlist, .step step run⟩

/-- Advancing columns of existing wires never fails and takes steps up to the next bit. -/
theorem nextFrom_run (nl : Netlist) (weight : Nat) :
    ∀ (columns : List (List Nat)) (has : ∀ column ∈ columns, nl.Has column),
      ∃ outcome grown, (nextFrom weight (references columns)).run nl = .ok outcome grown ∧
        Reaches ⟨nl, weight, columns, has⟩ outcome grown
  | [], has => by
      refine ⟨.ended weight, nl, ?_, ⟨nl, weight, [], has⟩, .refl _, rfl, rfl, rfl⟩
      change (nextFrom weight []).run nl = _
      rw [nextFrom]
      rfl
  | [] :: rest, has => by
      have later := (List.forall_mem_cons.mp has).2
      obtain ⟨outcome, grown, runs, reaches⟩ := nextFrom_run nl (weight + 1) rest later
      refine ⟨outcome.widen (by simp [workOf]), grown, ?_, ?_⟩
      · change (nextFrom weight ([] :: references rest)).run nl = _
        rw [nextFrom, EStateM.run_bind, runs]
        rfl
      · exact (reaches_widen _).mpr (reaches.after_step (.skip has later))
  | [x] :: rest, has => by
      have later := (List.forall_mem_cons.mp has).2
      refine ⟨.bit weight (.wire x) ⟨weight + 1, references rest⟩ (by simp [work, workOf]; omega),
        nl, ?_, x, ⟨nl, weight + 1, rest, later⟩, rfl, rfl, rfl, .step (.keep has later) (.refl _)⟩
      change (nextFrom weight ([.wire x] :: references rest)).run nl = _
      rw [nextFrom]
      rfl
  | [x, y] :: rest, has => by
      obtain ⟨here, above⟩ := List.forall_mem_cons.mp has
      obtain ⟨xBelow, yBelow, _⟩ := by simpa using here
      have growth := Netlist.grows_withHalfAdder xBelow yBelow
      have later : ∀ column ∈ deposit (nl.size + 1) rest, (nl.withHalfAdder x y).Has column :=
        has_deposit (by simp) (has_columns_grows above growth)
      have atMost := length_deposit_le (Datum.wire (nl.size + 1)) (references rest)
      refine ⟨.bit weight (.wire nl.size)
          ⟨weight + 1, deposit (.wire (nl.size + 1)) (references rest)⟩
          (by simp [work, workOf]; omega),
        nl.withHalfAdder x y, ?_, nl.size, ⟨_, weight + 1, _, later⟩, rfl, ?_, rfl,
        .step (.half has later) (.refl _)⟩
      · change (nextFrom weight ([.wire x, .wire y] :: references rest)).run nl = _
        rw [nextFrom, EStateM.run_bind, run_halfAdder xBelow yBelow]
        rfl
      · rw [Stage.compressor, references_deposit]
  | (x :: y :: z :: more) :: rest, has => by
      obtain ⟨here, above⟩ := List.forall_mem_cons.mp has
      obtain ⟨xBelow, yBelow, zBelow, moreHas⟩ := by simpa using here
      have growth := Netlist.grows_withFullAdder xBelow yBelow zBelow
      have later : ∀ column ∈ (more ++ [nl.size + 2]) :: deposit (nl.size + 4) rest,
          (nl.withFullAdder x y z).Has column := by
        refine List.forall_mem_cons.mpr ⟨?_, has_deposit (by simp) (has_columns_grows above growth)⟩
        exact Netlist.has_append_iff.mpr ⟨moreHas.grows growth, by simp [Netlist.has_nil]⟩
      have step : Step ⟨nl, weight, (x :: y :: z :: more) :: rest, has⟩ [] ⟨_, weight, _, later⟩ :=
        .full has later
      have continued := nextFrom_run (nl.withFullAdder x y z) weight _ later
      rw [references_cons, references_deposit, List.map_append, List.map_cons, List.map_nil]
        at continued
      obtain ⟨outcome, grown, runs, reaches⟩ := continued
      refine ⟨outcome.widen ?_, grown, ?_, ?_⟩
      · have atMost := length_deposit_le (Datum.wire (nl.size + 4)) (references rest)
        simp [workOf]
        omega
      · change (nextFrom weight ((.wire x :: .wire y :: .wire z :: more.map .wire) ::
          references rest)).run nl = _
        rw [nextFrom, EStateM.run_bind, run_fullAdder xBelow yBelow zBelow]
        simp only [EStateM.run_bind, runs]
        rfl
      · exact (reaches_widen _).mpr (reaches.after_step step)
termination_by columns => workOf columns
decreasing_by
  · simp [workOf]
  · have := length_deposit_le (nl.size + 4) rest
    simp [workOf]
    omega

/-- Advancing a stage never fails and takes steps up to its next bit. -/
theorem next_run (stage : Stage) :
    ∃ outcome grown, stage.compressor.next.run stage.netlist = .ok outcome grown ∧
      Reaches stage outcome grown :=
  nextFrom_run stage.netlist stage.weight stage.columns stage.has

/-- Draining a stage never fails and takes steps until there are no columns. -/
theorem drain_run (stage : Stage) :
    ∃ (bits : List (Nat × Nat)) (last : Stage),
      stage.compressor.drain.run stage.netlist =
        .ok (bits.map fun (weight, bit) => (weight, .wire bit), last.weight) last.netlist ∧
      Run stage bits last ∧ last.columns = [] := by
  obtain ⟨outcome, grown, runs, reaches⟩ := next_run stage
  cases outcome with
  | ended top =>
      obtain ⟨last, run, rfl, rfl, empty⟩ := reaches
      refine ⟨[], last, ?_, run, empty⟩
      rw [drain, EStateM.run_bind, runs]
      rfl
  | bit weight wire rest less =>
      obtain ⟨bit, later, rfl, rfl, rfl, run⟩ := reaches
      obtain ⟨bits, last, drains, further, empty⟩ := drain_run later
      refine ⟨(weight, bit) :: bits, last, ?_, run.trans further, empty⟩
      rw [drain, EStateM.run_bind, runs]
      simp only [EStateM.run_bind, drains]
      rfl
termination_by stage.compressor.work

/-! ### What steps and runs keep -/

theorem Step.grows {before after : Stage} {bits : List (Nat × Nat)}
    (step : Step before bits after) : before.netlist.Grows after.netlist := by
  cases step with
  | skip => exact .refl
  | keep => exact .refl
  | half has _ =>
      obtain ⟨xBelow, yBelow, _⟩ := by simpa using (List.forall_mem_cons.mp has).1
      exact Netlist.grows_withHalfAdder xBelow yBelow
  | full has _ =>
      obtain ⟨xBelow, yBelow, zBelow, _⟩ := by simpa using (List.forall_mem_cons.mp has).1
      exact Netlist.grows_withFullAdder xBelow yBelow zBelow

theorem Run.grows {before after : Stage} {bits : List (Nat × Nat)} (run : Run before bits after) :
    before.netlist.Grows after.netlist := by
  induction run with
  | refl => exact .refl
  | step head tail inductionHypothesis => exact head.grows.trans inductionHypothesis

/-- The bits that a step gives are existing wires. -/
theorem Step.has_bits {before after : Stage} {bits : List (Nat × Nat)}
    (step : Step before bits after) : after.netlist.Has (bits.map (·.2)) := by
  cases step with
  | skip => exact Netlist.has_nil _
  | keep has _ => simpa using (List.forall_mem_cons.mp has).1
  | half => simp [Netlist.Has]
  | full => exact Netlist.has_nil _

theorem Run.has_bits {before after : Stage} {bits : List (Nat × Nat)}
    (run : Run before bits after) : after.netlist.Has (bits.map (·.2)) := by
  induction run with
  | refl => exact Netlist.has_nil _
  | step head tail inductionHypothesis =>
      rw [List.map_append, Netlist.has_append_iff]
      exact ⟨head.has_bits.grows tail.grows, inductionHypothesis⟩

/-- A step gives at most one bit, of the weight of the lowest column, and then goes on to the
next weight. -/
theorem Step.weights {before after : Stage} {bits : List (Nat × Nat)}
    (step : Step before bits after) :
    before.weight ≤ after.weight ∧
      (bits = [] ∨ ∃ bit, bits = [(before.weight, bit)] ∧ after.weight = before.weight + 1) := by
  cases step with
  | skip => exact ⟨Nat.le_succ _, .inl rfl⟩
  | keep => exact ⟨Nat.le_succ _, .inr ⟨_, rfl, rfl⟩⟩
  | half => exact ⟨Nat.le_succ _, .inr ⟨_, rfl, rfl⟩⟩
  | full => exact ⟨Nat.le_refl _, .inl rfl⟩

/-- The bits of a run have increasing weights, none below the weight that the run starts at. -/
theorem Run.weights_increase {before after : Stage} {bits : List (Nat × Nat)}
    (run : Run before bits after) :
    (bits.map (·.1)).Pairwise (· < ·) ∧ ∀ weight ∈ bits.map (·.1), before.weight ≤ weight := by
  induction run with
  | refl => simp
  | step head tail inductionHypothesis =>
      obtain ⟨increase, least⟩ := inductionHypothesis
      obtain ⟨le, rfl | ⟨bit, rfl, next⟩⟩ := head.weights
      · refine ⟨increase, ?_⟩
        intro weight member
        exact Nat.le_trans le (least weight member)
      · have above : ∀ weight ∈ _, _ < weight := fun weight member =>
          Nat.lt_of_succ_le (next ▸ least weight member)
        refine ⟨List.pairwise_cons.mpr ⟨above, increase⟩, ?_⟩
        exact List.forall_mem_cons.mpr ⟨Nat.le_refl _, fun weight member =>
          Nat.le_of_lt (above weight member)⟩

/-- The bits of a run have weights below the weight that the run ends at. -/
theorem Run.weights_lt {before after : Stage} {bits : List (Nat × Nat)}
    (run : Run before bits after) :
    before.weight ≤ after.weight ∧ ∀ weight ∈ bits.map (·.1), weight < after.weight := by
  induction run with
  | refl => simp
  | step head tail inductionHypothesis =>
      obtain ⟨rises, below⟩ := inductionHypothesis
      obtain ⟨le, rfl | ⟨bit, rfl, next⟩⟩ := head.weights
      · exact ⟨Nat.le_trans le rises, below⟩
      · rw [next] at rises
        exact ⟨Nat.le_trans le (next ▸ rises), List.forall_mem_cons.mpr ⟨rises, below⟩⟩

/-- A run from no columns does nothing. -/
theorem Run.of_nil {before after : Stage} {bits : List (Nat × Nat)} (run : Run before bits after)
    (empty : before.columns = []) : bits = [] ∧ after = before := by
  cases run with
  | refl => exact ⟨rfl, rfl⟩
  | step head _ => cases head <;> cases empty

end Compressor

open Compressor

/-! ### Compressing columns of existing wires -/

/-- Reducing columns of existing wires to bits with weights never fails and is a run from the
columns to no columns. -/
theorem compressColumns_run {nl : Netlist} {columns : List (List Nat)}
    (has : ∀ column ∈ columns, nl.Has column) :
    ∃ (bits : List (Nat × Nat)) (last : Stage),
      (compressColumns (references columns)).run nl =
        .ok (bits.map fun (weight, bit) => (weight, .wire bit)) last.netlist ∧
      Run ⟨nl, 0, columns, has⟩ bits last ∧ last.columns = [] := by
  obtain ⟨bits, last, drains, run, empty⟩ := drain_run ⟨nl, 0, columns, has⟩
  refine ⟨bits, last, ?_, run, empty⟩
  change (drain { columns := references columns }).run nl = _ at drains
  simp only [compressColumns, EStateM.run_bind, drains, EStateM.run_pure]

/-- The bits without their weights are those that are given with them. -/
theorem run_compress {nl grown : Netlist} {columns : List (List Datum)} {bits : List (Nat × Nat)}
    (runs : (compressColumns columns).run nl =
      .ok (bits.map fun (weight, bit) => (weight, .wire bit)) grown) :
    (compress columns).run nl = .ok ((bits.map (·.2)).map .wire) grown := by
  simp only [compress, EStateM.run_bind, runs, EStateM.run_pure, List.map_map, Function.comp_def]

/-- Reducing columns of existing wires to bits without their weights. -/
theorem compress_run {nl : Netlist} {columns : List (List Nat)}
    (has : ∀ column ∈ columns, nl.Has column) :
    ∃ (bits : List (Nat × Nat)) (last : Stage),
      (compress (references columns)).run nl = .ok ((bits.map (·.2)).map .wire) last.netlist ∧
      Run ⟨nl, 0, columns, has⟩ bits last ∧ last.columns = [] := by
  obtain ⟨bits, last, runs, run, empty⟩ := compressColumns_run has
  exact ⟨bits, last, run_compress runs, run, empty⟩

end CarrySave
