/-
Module: CarrySave.Signal.Evaluation
Layer: Signals
Purpose: What the wires of a netlist carry under an assignment of its inputs.  One pass in
  the order of creation computes them all.
Main exports: inputSignal, gateSignal, Netlist.evaluate, Netlist.run
-/
import CarrySave.Netlist.Basic
import CarrySave.Signal.Bits

namespace CarrySave

/-- The bit that an assigned number stands for: whether it is odd.  A single number must fit
into eight bits; the numbers of a batch are reduced to that. -/
def inputSignal : Batch Int → Except Error Signal
  | .one value =>
      if !isWord value then .error (.notAWord value)
      else if value < 0 ∨ 255 < value then .error (.notAByte value)
      else .ok (.one (bitOf value 0))
  | .many values => .ok (.many (values.map (bitOf · 0)))

/-- The signal on an earlier wire. -/
def signalAt (signals : Array Signal) (wire : Nat) : Except Error Signal :=
  match signals[wire]? with
  | some signal => .ok signal
  | none => .error .indexOutOfRange

/-- The signal of the gate that comes next after those whose signals are known. -/
def gateSignal (assignment : Assignment) (signals : Array Signal) : Gate → Except Error Signal
  | .input label =>
      match assignment.get? signals.size with
      | some value => inputSignal value
      | none => .error (.unassigned label signals.size)
  | .buffer source => signalAt signals source
  | .logic op a b => do
      let x ← signalAt signals a
      let y ← signalAt signals b
      Batch.zipWith op.apply x y

/-- Add the signal of one more gate. -/
def extendSignals (assignment : Assignment) (signals : Array Signal) (gate : Gate) :
    Except Error (Array Signal) := do
  let signal ← gateSignal assignment signals gate
  pure (signals.push signal)

/-- The signals of all wires. -/
def Netlist.evaluate (nl : Netlist) (assignment : Assignment) : Except Error (Array Signal) :=
  nl.gates.foldlM (extendSignals assignment) #[]

@[simp] theorem Netlist.evaluate_empty (name : String) (assignment : Assignment) :
    Netlist.evaluate { name } assignment = .ok #[] := rfl

/-- One more gate adds its signal to those of a netlist and changes none of them. -/
theorem Netlist.evaluate_push (nl : Netlist) (gate : Gate) (assignment : Assignment) :
    (nl.push gate).evaluate assignment =
      (nl.evaluate assignment >>= fun signals => extendSignals assignment signals gate) := by
  simp [evaluate, push]

/-- The signal that an output selects.  Negative positions count from the last wire. -/
def outputSignal (signals : Array Signal) (output : Datum) : Except Error Signal := do
  let wire ← output.position signals.size
  signalAt signals wire

/-- The number on the output wires, least significant first. -/
def readOutputs (signals : Array Signal) (outputs : List Datum) : Except Error (Batch Int) := do
  let bits ← outputs.mapM (outputSignal signals)
  bitsToInt (bits.map Signal.number)

/-- Evaluate a netlist and read a number from its outputs. -/
def Netlist.run (nl : Netlist) (assignment : Assignment) (outputs : List Datum) :
    Except Error (Batch Int) := do
  let signals ← nl.evaluate assignment
  readOutputs signals outputs

end CarrySave
