/-
Module: CarrySave.Netlist.Basic
Layer: Netlists
Purpose: Netlists as gates in order of creation.  A gate only uses wires that exist when it
  is created, so the order of creation is an order of evaluation and there are no cycles;
  `Netlist.Ordered` says so.
Main exports: Netlist, Netlist.size, Netlist.push, Netlist.resolve, Netlist.Ordered,
  Netlist.resolve_eq_ok_iff, Netlist.resolve_wire
-/
import CarrySave.Error

namespace CarrySave

/-- A named sequence of gates.  The wire of a gate is its position. -/
structure Netlist where
  name : String := "netlist"
  gates : Array Gate := #[]
deriving DecidableEq, Repr, Inhabited

namespace Netlist

/-- How many gates there are, buffers and inputs included. -/
def size (nl : Netlist) : Nat :=
  nl.gates.size

/-- A netlist with one more gate.  Nothing else changes. -/
def push (nl : Netlist) (gate : Gate) : Netlist :=
  { nl with gates := nl.gates.push gate }

/-- The wire that a reference names: an integer from zero up to the size of the netlist. -/
def resolve (nl : Netlist) : Datum → Except Error Nat
  | .int wire =>
      if 0 ≤ wire ∧ wire < nl.size then .ok wire.toNat else .error (.noSuchWire wire nl.size)
  | other => .error (.notAWire other)

/-- The gate that a reference names. -/
def gateAt (nl : Netlist) (reference : Datum) : Except Error Gate := do
  let wire ← nl.resolve reference
  match nl.gates[wire]? with
  | some gate => pure gate
  | none => throw (.noSuchWire wire nl.size)

/-- Every operand is a wire of an earlier gate. -/
def Ordered (nl : Netlist) : Prop :=
  ∀ (wire : Nat) (gate : Gate), nl.gates[wire]? = some gate →
    ∀ operand ∈ gate.operands, operand < wire

@[simp] theorem size_push (nl : Netlist) (gate : Gate) : (nl.push gate).size = nl.size + 1 := by
  simp [size, push]

/-- A reference is accepted exactly when it is the integer of an existing wire. -/
theorem resolve_eq_ok_iff (nl : Netlist) (reference : Datum) (wire : Nat) :
    nl.resolve reference = .ok wire ↔ reference = .int wire ∧ wire < nl.size := by
  cases reference with
  | int value =>
      simp only [resolve, Datum.int.injEq]
      split
      · rename_i h
        constructor
        · intro same
          injection same with same
          omega
        · rintro ⟨rfl, _⟩
          simp
      · rename_i h
        constructor
        · intro impossible
          cases impossible
        · rintro ⟨rfl, below⟩
          omega
  | _ => simp [resolve]

/-- The reference to an existing wire is accepted. -/
theorem resolve_wire {nl : Netlist} {wire : Nat} (below : wire < nl.size) :
    nl.resolve (.wire wire) = .ok wire :=
  (nl.resolve_eq_ok_iff _ _).2 ⟨rfl, below⟩

end Netlist

end CarrySave
