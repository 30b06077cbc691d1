/-
Module: CarrySave.Proofs.Circuit.Synthesis
Layer: Proofs
Purpose: Operations, and circuits in netlists of their own.  An operation computes a number from
  existing wires, whatever bytes the inputs are given.  A circuit makes inputs for its operands
  and applies an operation to them, so it computes its result from integers modulo powers of two.
Main exports: run_makeInputs, Builder.Computes, Builder.Computes.outputs_eq, Design.build_one,
  Design.build_two, Design.compute_of_build, Design.compute_one, Design.compute_two
-/
import CarrySave.Proofs.Circuit.Reduction
import CarrySave.Proofs.Signal.Binding

namespace CarrySave

/-! ### Inputs -/

namespace Netlist

/-- The netlist in which inputs with the given labels have been added. -/
def withInputs (nl : Netlist) (labels : List String) : Netlist :=
  labels.foldl (fun nl label => nl.push (.input label)) nl

theorem grows_withInputs (nl : Netlist) (labels : List String) :
    nl.Grows (nl.withInputs labels) := by
  unfold withInputs
  induction labels generalizing nl with
  | nil => exact .refl
  | cons label rest inductionHypothesis =>
      have first : nl.Grows (nl.push (.input label)) := .push _ .refl (by simp [Gate.operands])
      exact first.trans (inductionHypothesis _)

@[simp] theorem size_withInputs (nl : Netlist) (labels : List String) :
    (nl.withInputs labels).size = nl.size + labels.length := by
  unfold withInputs
  induction labels generalizing nl with
  | nil => rfl
  | cons label rest inductionHypothesis =>
      rw [List.foldl_cons, inductionHypothesis, size_push, List.length_cons]
      omega

/-- New inputs stand on consecutive wires. -/
theorem inputs_withInputs (nl : Netlist) (labels : List String) :
    (nl.withInputs labels).inputs = nl.inputs ++ List.range' nl.size labels.length := by
  unfold withInputs
  induction labels generalizing nl with
  | nil => simp
  | cons label rest inductionHypothesis =>
      rw [List.foldl_cons, inductionHypothesis, inputs_push, size_push, List.length_cons,
        List.range'_succ, List.append_assoc]
      rfl

/-- No input is listed twice. -/
theorem nodup_inputs (nl : Netlist) : nl.inputs.Nodup :=
  List.nodup_range.filter _

end Netlist

theorem run_inputs (nl : Netlist) (labels : List String) :
    (Builder.inputs labels).run nl =
      .ok (List.range' nl.size labels.length) (nl.withInputs labels) := by
  unfold Builder.inputs
  induction labels generalizing nl with
  | nil => rfl
  | cons label rest inductionHypothesis =>
      rw [List.mapM_cons]
      simp only [EStateM.run_bind, Builder.run_input, inductionHypothesis, EStateM.run_pure,
        Netlist.size_push, List.length_cons, List.range'_succ]
      rfl

/-- Any number of inputs can be made, each on a wire of its own. -/
theorem run_makeInputs (nl : Netlist) (label : String) (count : Nat) :
    ∃ (wires : List Nat) (grown : Netlist),
      (makeInputs label count).run nl = .ok wires grown ∧ nl.Grows grown ∧
      grown.inputs = nl.inputs ++ wires ∧ grown.Has wires ∧ wires.length = count := by
  let labels := (List.range count).map fun index => label ++ toString index
  have notNegative : ¬((count : Int) < 0) := by omega
  refine ⟨List.range' nl.size labels.length, nl.withInputs labels, ?_, nl.grows_withInputs labels,
    nl.inputs_withInputs labels, ?_, by simp [labels]⟩
  · rw [makeInputs, if_neg notNegative]
    exact run_inputs nl labels
  · intro wire member
    have place := List.mem_range'_1.mp member
    rw [Netlist.size_withInputs]
    exact place.2

/-! ### Operations

An operation is a builder of outputs from wires of the netlist at hand. -/

/-- On a netlist an operation never fails and makes no inputs, and its outputs, of which there
are so many, make the given number at settled levels. -/
def Builder.Computes (operation : Builder (List Datum)) (nl : Netlist) (width : Nat)
    (number : (Nat → Bool) → Int) : Prop :=
  ∃ (outputs : List Nat) (grown : Netlist),
    operation.run nl = .ok (outputs.map .wire) grown ∧ nl.Extends grown ∧ grown.Has outputs ∧
    outputs.length = width ∧
    ∀ level : Nat → Bool, grown.Settled level → numberOn level outputs = number level

/-- Whatever bytes the inputs are given, running the netlist reads the number that an operation
computes from its outputs, and the numbers that earlier wires make at the same levels. -/
theorem Builder.Computes.outputs_eq {operation : Builder (List Datum)} {nl : Netlist} {width : Nat}
    {number : (Nat → Bool) → Int} (computes : operation.Computes nl width number)
    (ordered : nl.Ordered) :
    ∃ (outputs : List Nat) (grown : Netlist),
      operation.run nl = .ok (outputs.map .wire) grown ∧ nl.Grows grown ∧ grown.Has outputs ∧
      outputs.length = width ∧
      ∀ assignment : Assignment, assignment.Covers nl →
        ∃ level : Nat → Bool, grown.evaluate assignment = .ok (signalsOf grown.size level) ∧
          grown.run assignment (outputs.map .wire) = .ok (.one (number level)) ∧
          ∀ wires, nl.Has wires →
            grown.run assignment (wires.map .wire) = .ok (.one (numberOn level wires)) := by
  obtain ⟨outputs, grown, runs, extended, has, count, numbers⟩ := computes
  refine ⟨outputs, grown, runs, extended.grows, has, count, ?_⟩
  intro assignment covers
  obtain ⟨level, evaluated, settled, _⟩ :=
    Netlist.evaluate_settled (extended.grows.ordered ordered) (covers.extends extended)
  refine ⟨level, evaluated, ?_, ?_⟩
  · rw [← numbers level settled]
    exact Netlist.run_eq_numberOn evaluated has
  · intro wires earlier
    exact Netlist.run_eq_numberOn evaluated (earlier.grows extended.grows)

/-! ### Computing with a circuit -/

/-- The report on a circuit lists its operands in order. -/
theorem Design.synthesize_of_build {design : Design} {groups : List (String × List Nat)}
    {outputs : List Datum} {nl : Netlist}
    (built : design.build.run { name := design.netlistName } = .ok (groups, outputs) nl)
    (labels : (groups.map (·.1)).Nodup) :
    ∃ circuit, design.synthesize = .ok circuit ∧ circuit.netlist = nl ∧
      circuit.report.inputs.values = (groups.map (·.2)).map (·.map .wire) ∧
      circuit.report.outputs = outputs := by
  refine ⟨_, by rw [Design.synthesize, built], rfl, ?_, rfl⟩
  simp only [Report.collect]
  rw [Roster.ofList_of_nodup (by simpa [Function.comp_def] using labels)]
  simp [Roster.values, Function.comp_def]

/-- When all inputs of a circuit are operands with labels of their own, its operation computes
its number at settled levels at which each operand makes its integer modulo a power of two. -/
theorem Design.compute_of_build {design : Design} {operation : Builder (List Datum)}
    {start : Netlist} {width : Nat} {number : (Nat → Bool) → Int}
    (operands : List (String × List Nat × Int))
    (built : ∀ {outputs : List Datum} {grown : Netlist}, operation.run start = .ok outputs grown →
      design.build.run { name := design.netlistName } =
        .ok (operands.map fun operand => (operand.1, operand.2.1), outputs) grown)
    (computes : operation.Computes start width number) (ordered : start.Ordered)
    (inputs : start.inputs = operands.flatMap (·.2.1)) (labels : (operands.map (·.1)).Nodup) :
    ∃ level : Nat → Bool,
      (∀ operand ∈ operands, numberOn level operand.2.1 = operand.2.2 % 2 ^ operand.2.1.length) ∧
      design.compute (operands.map fun operand => .one operand.2.2) =
        .ok (.one (number level)) := by
  obtain ⟨outputs, grown, runs, extended, has, -, numbers⟩ := computes
  obtain ⟨circuit, synthesized, rfl, wires, results⟩ :=
    Design.synthesize_of_build (built runs) (by simpa [Function.comp_def] using labels)
  have inputWires : circuit.netlist.inputs = (operands.map (·.2)).flatMap (·.1) := by
    rw [extended.inputs_eq, inputs, List.flatMap_map]
  have distinct : ((operands.map (·.2)).flatMap (·.1)).Nodup := by
    rw [← inputWires]
    exact circuit.netlist.nodup_inputs
  have covers : (Assignment.ofOperands (operands.map (·.2))).Covers circuit.netlist :=
    covers_ofOperands distinct fun wire member => by rwa [← inputWires]
  obtain ⟨level, evaluated, settled, assigned⟩ :=
    Netlist.evaluate_settled (extended.grows.ordered ordered) covers
  have bound : Design.assignOperands circuit.report.inputs.values
      (operands.map fun operand => .one operand.2.2) =
        .ok (Assignment.ofOperands (operands.map (·.2))) := by
    rw [wires, ← assignOperands_single distinct]
    simp [Function.comp_def]
  refine ⟨level, ?_, ?_⟩
  · intro operand member
    apply numberOn_operand distinct (List.mem_map_of_mem member)
    intro wire place
    apply assigned
    rw [extended.inputs_eq, inputs]
    exact List.mem_flatMap.mpr ⟨operand, member, place⟩
  · simp only [Design.compute, synthesized, bind, Except.bind, bound, results]
    rw [← numbers level settled]
    exact Netlist.run_eq_numberOn evaluated has

/-- What is built for one operand is the operation on new inputs, which are all inputs there are. -/
theorem Design.build_one (design : Design) {n : Nat} (operation : List Datum → Builder (List Datum))
    (form : design.build = do
      let wires ← makeInputs "x" n
      let outputs ← operation (wires.map .wire)
      pure ([("x", wires)], outputs)) :
    ∃ (wires : List Nat) (start : Netlist),
      (makeInputs "x" n).run { name := design.netlistName } = .ok wires start ∧ start.Ordered ∧
      start.inputs = wires ∧ start.Has wires ∧ wires.length = n ∧
      ∀ {outputs : List Datum} {grown : Netlist},
        (operation (wires.map .wire)).run start = .ok outputs grown →
        design.build.run { name := design.netlistName } = .ok ([("x", wires)], outputs) grown := by
  obtain ⟨wires, start, made, grows, inputs, has, width⟩ :=
    run_makeInputs { name := design.netlistName } "x" n
  refine ⟨wires, start, made, grows.ordered (Netlist.ordered_empty _), inputs, has, width, ?_⟩
  intro outputs grown runs
  simp only [form, EStateM.run_bind, made, runs, EStateM.run_pure]

/-- What is built for two operands is the operation on new inputs, which are all inputs there are. -/
theorem Design.build_two (design : Design) {m n : Nat}
    (operation : List Datum → List Datum → Builder (List Datum))
    (form : design.build = do
      let a ← makeInputs "a" m
      let b ← makeInputs "b" n
      let outputs ← operation (a.map .wire) (b.map .wire)
      pure ([("a", a), ("b", b)], outputs)) :
    ∃ (a b : List Nat) (first start : Netlist),
      (makeInputs "a" m).run { name := design.netlistName } = .ok a first ∧
      (makeInputs "b" n).run first = .ok b start ∧ start.Ordered ∧ start.inputs = a ++ b ∧
      start.Has a ∧ start.Has b ∧ a.length = m ∧ b.length = n ∧
      ∀ {outputs : List Datum} {grown : Netlist},
        (operation (a.map .wire) (b.map .wire)).run start = .ok outputs grown →
        design.build.run { name := design.netlistName } =
          .ok ([("a", a), ("b", b)], outputs) grown := by
  obtain ⟨a, first, madeA, growsA, inputsA, hasA, widthA⟩ :=
    run_makeInputs { name := design.netlistName } "a" m
  obtain ⟨b, start, madeB, growsB, inputsB, hasB, widthB⟩ := run_makeInputs first "b" n
  refine ⟨a, b, first, start, madeA, madeB, (growsA.trans growsB).ordered (Netlist.ordered_empty _),
    by rw [inputsB, inputsA]; rfl, hasA.grows growsB, hasB, widthA, widthB, ?_⟩
  intro outputs grown runs
  simp only [form, EStateM.run_bind, madeA, madeB, runs, EStateM.run_pure]

/-- A circuit of one operand computes the number that its operation makes of the integer modulo
a power of two. -/
theorem Design.compute_one {design : Design} {n width : Nat}
    (operation : List Datum → Builder (List Datum)) (number : Int → Int)
    (form : design.build = do
      let wires ← makeInputs "x" n
      let outputs ← operation (wires.map .wire)
      pure ([("x", wires)], outputs))
    (computes : ∀ (nl : Netlist) (wires : List Nat), nl.Has wires → wires.length = n →
      (operation (wires.map .wire)).Computes nl width fun level => number (numberOn level wires))
    (x : Int) : design.compute [.one x] = .ok (.one (number (x % 2 ^ n))) := by
  obtain ⟨wires, start, -, ordered, inputs, has, rfl, built⟩ := design.build_one operation form
  have allInputs : start.inputs = wires ++ [] := by rw [inputs, List.append_nil]
  obtain ⟨level, given, computed⟩ := Design.compute_of_build [("x", wires, x)] built
    (computes start wires has rfl) ordered allInputs (by simp)
  have makes : numberOn level wires = x % 2 ^ wires.length := given ("x", wires, x) (by simp)
  rw [← makes]
  exact computed

/-- A circuit of two operands computes the number that its operation makes of the integers
modulo powers of two. -/
theorem Design.compute_two {design : Design} {m n width : Nat}
    (operation : List Datum → List Datum → Builder (List Datum)) (number : Int → Int → Int)
    (form : design.build = do
      let a ← makeInputs "a" m
      let b ← makeInputs "b" n
      let outputs ← operation (a.map .wire) (b.map .wire)
      pure ([("a", a), ("b", b)], outputs))
    (computes : ∀ (nl : Netlist) (a b : List Nat), nl.Has a → nl.Has b → a.length = m →
      b.length = n → (operation (a.map .wire) (b.map .wire)).Computes nl width
        fun level => number (numberOn level a) (numberOn level b))
    (x y : Int) :
    design.compute [.one x, .one y] = .ok (.one (number (x % 2 ^ m) (y % 2 ^ n))) := by
  obtain ⟨a, b, first, start, -, -, ordered, inputs, hasA, hasB, rfl, rfl, built⟩ :=
    design.build_two operation form
  have allInputs : start.inputs = a ++ (b ++ []) := by rw [inputs, List.append_nil]
  obtain ⟨level, given, computed⟩ := Design.compute_of_build [("a", a, x), ("b", b, y)] built
    (computes start a b hasA hasB rfl rfl) ordered allInputs (by simp)
  have makesA : numberOn level a = x % 2 ^ a.length := given ("a", a, x) (by simp)
  have makesB : numberOn level b = y % 2 ^ b.length := given ("b", b, y) (by simp)
  rw [← makesA, ← makesB]
  exact computed

end CarrySave
