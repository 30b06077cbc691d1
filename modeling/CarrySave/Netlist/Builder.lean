/-
Module: CarrySave.Netlist.Builder
Layer: Netlists
Purpose: Adding gates to a netlist.  A builder may fail, and what it added before it failed
  stays.  All gates are added by `mint`, which adds one gate or fails without a trace.
Main exports: Builder, Builder.mint, Builder.input, Builder.buffer, Builder.logic,
  Builder.gate, Builder.append, Builder.run_buffer, Builder.run_logic
-/
import CarrySave.Netlist.Basic

namespace CarrySave

/-- Computations that add gates to a netlist.  A failure keeps the gates added so far. -/
abbrev Builder : Type → Type := EStateM Error Netlist

namespace Builder

/-- Add the gate that is described in terms of the netlist as it stands, and return its
wire. -/
def mint (describe : Netlist → Except Error Gate) : Builder Nat := fun nl =>
  match describe nl with
  | .ok gate =>
      let wire := nl.size
      .ok wire (nl.push gate)
  | .error error => .error error nl

@[simp] theorem run_mint (describe : Netlist → Except Error Gate) (nl : Netlist) :
    (mint describe).run nl =
      match describe nl with
      | .ok gate => .ok nl.size (nl.push gate)
      | .error error => .error error nl := rfl

/-- Applying a function to what a builder returns leaves alone what it builds. -/
@[simp] theorem run_map {α β : Type} (f : α → β) (builder : Builder α) (nl : Netlist) :
    (f <$> builder).run nl =
      match builder.run nl with
      | .ok value grown => .ok (f value) grown
      | .error error grown => .error error grown := by
  simp only [Functor.map, EStateM.map, EStateM.run]
  cases builder nl <;> rfl

/-- Add a primary input. -/
def input (label : String) : Builder Nat :=
  mint fun _ => .ok (.input label)

/-- Add a buffer of an existing wire. -/
def buffer (source : Datum) : Builder Nat :=
  mint fun nl => do
    let wire ← nl.resolve source
    pure (.buffer wire)

/-- Add a logic gate on two existing wires. -/
def logic (op : Op) (a b : Datum) : Builder Nat :=
  mint fun nl => do
    let x ← nl.resolve a
    let y ← nl.resolve b
    pure (.logic op x y)

theorem run_input (label : String) (nl : Netlist) :
    (input label).run nl = .ok nl.size (nl.push (.input label)) := rfl

/-- A buffer of an existing wire is added without fail. -/
theorem run_buffer {nl : Netlist} {source : Nat} (below : source < nl.size) :
    (buffer (.wire source)).run nl = .ok nl.size (nl.push (.buffer source)) := by
  simp [buffer, Netlist.resolve_wire below, bind, Except.bind, pure, Except.pure]

/-- A logic gate on existing wires is added without fail. -/
theorem run_logic {nl : Netlist} {a b : Nat} (op : Op) (aBelow : a < nl.size)
    (bBelow : b < nl.size) :
    (logic op (.wire a) (.wire b)).run nl = .ok nl.size (nl.push (.logic op a b)) := by
  simp [logic, Netlist.resolve_wire aBelow, Netlist.resolve_wire bBelow, bind, Except.bind,
    pure, Except.pure]

/-- Add a logic gate whose operator is given as a datum.  The operator is looked at before
the operands. -/
def gate (op a b : Datum) : Builder Nat :=
  match op with
  | .op known => logic known a b
  | other => throw (.unknownOp other)

/-- Read an operator that may also be given by its name, in capitals or small letters.  Only
the Latin letters have a small form that occurs in the name of an operator. -/
def operatorOf (given : Datum) : Datum :=
  match given with
  | .text name => ((Op.ofName? name.toLower).map Datum.op).getD given
  | other => other

/-- Add the gate that has as many operands as are given: an input, labelled by the first
argument; a buffer, which ignores it; or a logic gate of that operator. -/
def append (opOrLabel : Datum) (operands : List Datum) : Builder Nat :=
  match operands with
  | [] => input opOrLabel.display
  | [source] => buffer source
  | [a, b] => gate (operatorOf opOrLabel) a b
  | more => throw (.tooManyOperands more.length)

/-- Add one gate after another and return their wires. -/
def inputs (labels : List String) : Builder (List Nat) :=
  labels.mapM input

end Builder

end CarrySave
