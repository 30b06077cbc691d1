/-
Module: CarrySave.Proofs.Netlist.Aliases
Layer: Proofs
Purpose: Buffers are second names for the wires that they repeat.  From any wire a chain of buffers
  leads down to one wire that is no buffer, and the two have the same display name and the same
  signal.  Adding buffers costs nothing and changes neither names nor signals of earlier wires.
Main exports: Netlist.Repeats, Netlist.repeats_root, Netlist.Repeats.root_eq,
  Netlist.Repeats.signal_eq, Netlist.Grows.wireName_eq, Netlist.Buffered, Session.buffered_serveAll,
  Session.buffers_transparent
-/
import CarrySave.Netlist.Graph
import CarrySave.Proofs.Netlist.Kinds
import CarrySave.Proofs.Signal.Stability

namespace CarrySave

namespace Netlist

/-! ### Chains of buffers -/

/-- A chain of so many buffers leads from the first wire to the second. -/
inductive Repeats (nl : Netlist) : Nat → Nat → Nat → Prop where
  | itself (wire : Nat) : Repeats nl 0 wire wire
  | buffer {steps wire source last : Nat} (found : nl.gates[wire]? = some (.buffer source))
      (rest : Repeats nl steps source last) : Repeats nl (steps + 1) wire last

variable {nl : Netlist}

/-- A buffer of an earlier wire has the root of that wire. -/
theorem root_of_buffer {wire source : Nat} (found : nl.gates[wire]? = some (.buffer source))
    (earlier : source < wire) : nl.root wire = nl.root source := by
  rw [root, found]
  exact if_pos earlier

/-- A wire that is no buffer is its own root. -/
theorem root_of_not_buffer {wire : Nat} (other : ∀ source, nl.gates[wire]? ≠ some (.buffer source)) :
    nl.root wire = wire := by
  rw [root]
  split
  · rename_i source found
    exact absurd found (other source)
  · rfl

section Ordered

variable (ordered : nl.Ordered)

include ordered

theorem source_lt {wire source : Nat} (found : nl.gates[wire]? = some (.buffer source)) :
    source < wire :=
  ordered wire _ found source (by simp [Gate.operands])

/-- From any wire a chain of buffers, no longer than the way down, leads to its root.  The induction
is on the wire, since each buffer repeats an earlier one. -/
theorem repeats_root (wire : Nat) :
    ∃ steps, nl.Repeats steps wire (nl.root wire) ∧ nl.root wire + steps ≤ wire ∧
      ∀ source, nl.gates[nl.root wire]? ≠ some (.buffer source) := by
  induction wire using Nat.strongRecOn with
  | ind wire inductionHypothesis =>
      by_cases buffered : ∃ source, nl.gates[wire]? = some (.buffer source)
      · obtain ⟨source, found⟩ := buffered
        have earlier := source_lt ordered found
        obtain ⟨steps, chain, short, other⟩ := inductionHypothesis source earlier
        rw [root_of_buffer found earlier]
        exact ⟨steps + 1, .buffer found chain, by omega, other⟩
      · have other : ∀ source, nl.gates[wire]? ≠ some (.buffer source) := fun source found =>
          buffered ⟨source, found⟩
        rw [root_of_not_buffer other]
        exact ⟨0, .itself wire, Nat.le_refl _, other⟩

theorem root_le (wire : Nat) : nl.root wire ≤ wire := by
  obtain ⟨steps, -, short, -⟩ := repeats_root ordered wire
  omega

/-- All wires of a chain have the same root. -/
theorem Repeats.root_eq {steps wire last : Nat} (chain : nl.Repeats steps wire last) :
    nl.root wire = nl.root last := by
  induction chain with
  | itself => rfl
  | buffer found _ inductionHypothesis =>
      rw [root_of_buffer found (source_lt ordered found), inductionHypothesis]

/-- A chain that ends at a wire that is no buffer ends at the root. -/
theorem Repeats.eq_root {steps wire last : Nat} (chain : nl.Repeats steps wire last)
    (other : ∀ source, nl.gates[last]? ≠ some (.buffer source)) : last = nl.root wire := by
  rw [chain.root_eq ordered, root_of_not_buffer other]

/-- A wire has the name of its root. -/
theorem wireName_root (wire : Nat) : nl.wireName (nl.root wire) = nl.wireName wire := by
  obtain ⟨steps, chain, -, -⟩ := repeats_root ordered wire
  rw [wireName, wireName, ← chain.root_eq ordered]

end Ordered

theorem nameOf_wire {wire : Nat} (below : wire < nl.size) :
    nl.nameOf (.wire wire) = .ok (nl.wireName wire) := by
  simp [nameOf, resolve_wire below, bind, Except.bind, pure, Except.pure]

/-! ### Signals -/

/-- A buffer carries the signal of its source. -/
theorem signal_of_buffer {assignment : Assignment} {signals : Array Signal} {wire source : Nat}
    (evaluated : nl.evaluate assignment = .ok signals)
    (found : nl.gates[wire]? = some (.buffer source)) :
    ∃ signal, signals[wire]? = some signal ∧ signals[source]? = some signal := by
  induction nl using push_induction generalizing signals with
  | empty name => simp at found
  | push nl gate inductionHypothesis =>
      obtain ⟨before, last, earlier, computed, rfl⟩ := evaluate_push_eq_ok_iff.mp evaluated
      have sized := size_of_evaluate earlier
      have kept : ∀ {wire : Nat} {signal : Signal}, before[wire]? = some signal →
          (before.push last)[wire]? = some signal := by
        intro wire signal known
        have below := (Array.getElem?_eq_some_iff.mp known).1
        rw [Array.getElem?_push_lt below, ← known, Array.getElem?_eq_getElem below]
      rcases getElem?_push_cases found with buffered | ⟨rfl, rfl⟩
      · obtain ⟨signal, here, there⟩ := inductionHypothesis earlier buffered
        exact ⟨signal, kept here, kept there⟩
      · rw [gateSignal, signalAt] at computed
        cases known : before[source]? with
        | none => simp [known] at computed
        | some signal =>
            rw [known] at computed
            obtain rfl := Except.ok.inj computed
            exact ⟨signal, by rw [← sized, Array.getElem?_push_size], kept known⟩

/-- All wires of a chain carry the same signal. -/
theorem Repeats.signal_eq {assignment : Assignment} {signals : Array Signal} {steps wire last : Nat}
    (chain : nl.Repeats steps wire last) (evaluated : nl.evaluate assignment = .ok signals) :
    signals[wire]? = signals[last]? := by
  induction chain with
  | itself => rfl
  | buffer found _ inductionHypothesis =>
      obtain ⟨signal, here, there⟩ := signal_of_buffer evaluated found
      rw [here, ← there, inductionHypothesis]

/-! ### Growth -/

/-- A chain stays when a netlist grows. -/
theorem Repeats.grows {start grown : Netlist} {steps wire last : Nat}
    (chain : start.Repeats steps wire last) (growth : start.Grows grown) (ordered : start.Ordered)
    (below : wire < start.size) : grown.Repeats steps wire last := by
  induction chain with
  | itself => exact .itself _
  | buffer found _ inductionHypothesis =>
      have earlier := source_lt ordered found
      exact .buffer (by rw [growth.getElem?_eq below, found])
        (inductionHypothesis (Nat.lt_trans earlier below))

/-- A wire keeps its root when a netlist grows. -/
theorem Grows.root_eq {start grown : Netlist} (growth : start.Grows grown) (ordered : start.Ordered)
    {wire : Nat} (below : wire < start.size) : grown.root wire = start.root wire := by
  obtain ⟨steps, chain, -, other⟩ := repeats_root ordered wire
  have inside := Nat.lt_of_le_of_lt (root_le ordered wire) below
  refine ((chain.grows growth ordered below).eq_root (growth.ordered ordered) ?_).symm
  rwa [growth.getElem?_eq inside]

/-- A wire keeps its name when a netlist grows. -/
theorem Grows.wireName_eq {start grown : Netlist} (growth : start.Grows grown)
    (ordered : start.Ordered) {wire : Nat} (below : wire < start.size) :
    grown.wireName wire = start.wireName wire := by
  have inside := Nat.lt_of_le_of_lt (root_le ordered wire) below
  rw [wireName, wireName, growth.root_eq ordered below, growth.getElem?_eq inside]

/-- A netlist grows by buffers only. -/
inductive Buffered (start : Netlist) : Netlist → Prop where
  | refl : Buffered start start
  | push {grown : Netlist} {source : Nat} (growth : Buffered start grown)
      (below : source < grown.size) : Buffered start (grown.push (.buffer source))

namespace Buffered

variable {start grown : Netlist}

theorem grows (buffered : start.Buffered grown) : start.Grows grown := by
  induction buffered with
  | refl => exact .refl
  | push _ below inductionHypothesis =>
      exact .push _ inductionHypothesis (by simpa [Gate.operands] using below)

theorem trans {first middle last : Netlist} (one : first.Buffered middle)
    (two : middle.Buffered last) : first.Buffered last := by
  induction two with
  | refl => exact one
  | push _ below inductionHypothesis => exact .push inductionHypothesis below

/-- Buffers are free. -/
theorem cost_eq (buffered : start.Buffered grown) (model : CostModel) :
    model.cost grown = model.cost start := by
  induction buffered with
  | refl => rfl
  | push _ _ inductionHypothesis =>
      rw [CostModel.cost_push, inductionHypothesis]
      rfl

/-- Buffers evaluate whenever what they repeat does, and their signals come last. -/
theorem evaluate_eq (buffered : start.Buffered grown) (assignment : Assignment) :
    (fun signals => signals.take start.size) <$> grown.evaluate assignment =
      start.evaluate assignment := by
  cases evaluated : grown.evaluate assignment with
  | ok signals => exact (buffered.grows.evaluate_take evaluated).symm
  | error error =>
      induction buffered with
      | refl => exact evaluated.symm
      | @push grown source _ below inductionHypothesis =>
          rw [evaluate_push] at evaluated
          cases before : grown.evaluate assignment with
          | error cause =>
              rw [before] at evaluated
              cases evaluated
              exact inductionHypothesis before
          | ok signals =>
              have inside : source < signals.size := size_of_evaluate before ▸ below
              simp [before, bind, Except.bind, extendSignals, gateSignal, signalAt, inside, pure,
                Except.pure] at evaluated

end Buffered

end Netlist

/-! ### Requests for buffers -/

/-- The builder of a buffer leaves one more buffer, or the netlist as it was. -/
theorem Builder.buffered_buffer (nl : Netlist) (source : Datum) :
    nl.Buffered (leaving (Builder.buffer source) nl) := by
  simp only [leaving, Builder.buffer, Builder.run_mint]
  cases resolved : nl.resolve source with
  | error error => exact .refl
  | ok wire => exact .push .refl ((nl.resolve_eq_ok_iff source wire).mp resolved).2

/-- The request asks for a buffer, by name or by giving a single operand. -/
def Request.IsBuffer : Request → Prop
  | .buffer _ => True
  | .append _ [_] => True
  | _ => False

namespace Session

/-- A request that is answered from what a builder returns leaves the netlist that the builder
leaves. -/
theorem netlist_after {α : Type} {session : Session} {request : Request} {builder : Builder α}
    (reply : α → Reply)
    (served : serve request = building builder >>= fun value => pure (reply value)) :
    (session.after request).netlist = leaving builder session.netlist := by
  simp only [after, served, EStateM.run_bind, leaving]
  simp only [EStateM.run, building]
  cases builder session.netlist <;> rfl

theorem buffered_after {session : Session} {request : Request} (isBuffer : request.IsBuffer) :
    session.netlist.Buffered (session.after request).netlist := by
  match request, isBuffer with
  | .buffer source, _ =>
      rw [netlist_after (fun wire => .wire (.wire wire)) rfl]
      exact Builder.buffered_buffer _ source
  | .append _ [source], _ =>
      rw [netlist_after (fun wire => .wire (.wire wire)) rfl]
      exact Builder.buffered_buffer _ source

/-- Requests for buffers, granted or refused, only add buffers. -/
theorem buffered_serveAll (session : Session) {requests : List Request}
    (buffers : ∀ request ∈ requests, request.IsBuffer) :
    session.netlist.Buffered (session.serveAll requests).netlist := by
  unfold serveAll
  induction requests generalizing session with
  | nil => exact .refl
  | cons request rest inductionHypothesis =>
      obtain ⟨first, others⟩ := List.forall_mem_cons.mp buffers
      exact (buffered_after first).trans (inductionHypothesis (session.after request) others)

/-- Buffers are transparent.  Take a session on a netlist that requests lead to.

* From every wire a chain of buffers, which cannot be longer than the way down, leads to a wire that
  is no buffer, and to no other such wire.  Both have the same display name: the label of an input, or
  the name of the operator of a logic gate.  It is also the label of the wire in the graph.  Whenever
  the netlist evaluates, both carry the same signal.
* Any number of requests for buffers, granted or refused, leave the price under every cost model and
  the display names of the wires there are.  Afterwards the netlist evaluates exactly when it did
  before, and then the wires there were carry the same signals. -/
theorem buffers_transparent {session : Session} (reachable : session.netlist.Reachable) :
    let nl := session.netlist
    (∀ wire < nl.size, ∃ (steps last : Nat) (gate : Gate) (name : String),
      nl.Repeats steps wire last ∧ last + steps ≤ wire ∧
      nl.gates[last]? = some gate ∧ (∀ source, gate ≠ .buffer source) ∧
      (∀ more other, nl.Repeats more wire other →
        (∀ source, nl.gates[other]? ≠ some (.buffer source)) → other = last) ∧
      nl.nameOf (.wire wire) = .ok name ∧ nl.nameOf (.wire last) = .ok name ∧
      nl.toGraph.labels[wire]? = some name ∧
      (∀ label, gate = .input label → name = label) ∧
      (∀ op a b, gate = .logic op a b → name = op.name) ∧
      ∀ assignment signals, nl.evaluate assignment = .ok signals →
        ∃ signal, signals[wire]? = some signal ∧ signals[last]? = some signal) ∧
    ∀ requests : List Request, (∀ request ∈ requests, request.IsBuffer) →
      let later := (session.serveAll requests).netlist
      (∀ model : CostModel, model.cost later = model.cost nl) ∧
      (∀ wire < nl.size, later.nameOf (.wire wire) = nl.nameOf (.wire wire)) ∧
      ∀ assignment, (fun signals => signals.take nl.size) <$> later.evaluate assignment =
        nl.evaluate assignment := by
  intro nl
  have ordered : nl.Ordered := reachable.ordered
  constructor
  · intro wire below
    obtain ⟨steps, chain, short, other⟩ := Netlist.repeats_root ordered wire
    have inside : nl.root wire < nl.size := Nat.lt_of_le_of_lt (Netlist.root_le ordered wire) below
    have found := Array.getElem?_eq_getElem inside
    have named : nl.wireName wire = nl.wireName (nl.root wire) :=
      (Netlist.wireName_root ordered wire).symm
    refine ⟨steps, nl.root wire, _, nl.wireName wire, chain, short, found, ?_, ?_,
      Netlist.nameOf_wire below, named ▸ Netlist.nameOf_wire inside, ?_, ?_, ?_, ?_⟩
    · exact fun source same => other source (found.trans (congrArg some same))
    · exact fun more last chain isNone => chain.eq_root ordered isNone
    · simp [Netlist.toGraph, below]
    · intro label same
      rw [Netlist.wireName, found, same]
    · intro op a b same
      rw [Netlist.wireName, found, same]
      rfl
    · intro assignment signals evaluated
      have sized : wire < signals.size := Netlist.size_of_evaluate evaluated ▸ below
      have carried := Array.getElem?_eq_getElem sized
      exact ⟨_, carried, (chain.signal_eq evaluated).symm.trans carried⟩
  · intro requests buffers later
    have buffered := session.buffered_serveAll buffers
    refine ⟨buffered.cost_eq, ?_, buffered.evaluate_eq⟩
    intro wire below
    have still := Nat.lt_of_lt_of_le below buffered.grows.size_le
    rw [Netlist.nameOf_wire still, Netlist.nameOf_wire below,
      buffered.grows.wireName_eq ordered below]

/-- Requests for a copy of a copy and for one more, and one that is refused. -/
def copyAgain : List Request :=
  [.buffer (.wire 4), .append .null [.wire 6], .buffer (.wire 9)]

/-- The copy of the shared gate has its name and its signal, and copies of the copy change nothing. -/
theorem buffers_transparent_sharedGate :
    sharedGate.Reachable ∧ (∀ request ∈ copyAgain, request.IsBuffer) ∧
    sharedGate.nameOf (.wire 4) = .ok "and" ∧ sharedGate.nameOf (.wire 3) = .ok "and" ∧
    (∀ signals, sharedGate.evaluate twoCases = .ok signals →
      ∃ signal, signals[4]? = some signal ∧ signals[3]? = some signal) ∧
    let later := (serveAll { netlist := sharedGate } copyAgain).netlist
    later.size = 8 ∧ CostModel.aig.cost later = CostModel.aig.cost sharedGate ∧
    later.nameOf (.wire 4) = sharedGate.nameOf (.wire 4) := by
  have buffers : ∀ request ∈ copyAgain, request.IsBuffer := by
    simp [copyAgain, Request.IsBuffer]
  obtain ⟨aliases, unchanged⟩ :=
    @buffers_transparent { netlist := sharedGate } sharedGate_reachable
  obtain ⟨cost, names, -⟩ := unchanged copyAgain buffers
  obtain ⟨steps, last, gate, name, -, -, found, -, unique, nameHere, nameThere, -, -, operator, same⟩ :=
    aliases 4 (by decide)
  obtain rfl : 3 = last := unique 1 3 (.buffer rfl (.itself 3)) fun source found => by cases found
  cases found
  obtain rfl := operator .and 0 1 rfl
  exact ⟨sharedGate_reachable, buffers, nameHere, nameThere, same twoCases, rfl, cost .aig,
    names 4 (by decide)⟩

end Session

end CarrySave
