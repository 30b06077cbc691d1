/-
Module: CarrySave.Proofs.Session.Reachable
Layer: Proofs
Purpose: What holds of every netlist that requests lead to.  Each request, granted or refused,
  only makes the netlist of its session grow, so netlists that are reached from an empty one
  have no gate that uses a later wire.
Main exports: Session.after_grows, Session.serveAll_grows, Netlist.Reachable.ordered
-/
import CarrySave.Session
import CarrySave.Proofs.Circuit.Growth

namespace CarrySave

namespace Session

/-- From one session to a later one, the netlist only grows. -/
def Follows (session later : Session) : Prop :=
  session.netlist.Grows later.netlist

instance : Std.Refl Follows := ⟨fun _ => .refl⟩

instance : Trans Follows Follows Follows := ⟨Netlist.Grows.trans⟩

/-- A builder that only makes its netlist grow does so within a session. -/
theorem moves_building {α : Type} {builder : Builder α} (growing : builder.Growing) :
    Moves Follows (building builder) := by
  intro session
  have grown := growing session.netlist
  simp only [leaving, EStateM.run, building, Follows] at grown ⊢
  cases outcome : builder session.netlist <;> simpa [outcome] using grown

/-- What is remembered of compressions leaves the netlist alone. -/
theorem moves_keep (id : String) (compressor : Compressor) : Moves Follows (keep id compressor) :=
  fun _ => .refl

theorem moves_advance (id : String) : Moves Follows (advance id) := by
  have reading : Moves Follows (get : Action Session) := fun _ => .refl
  apply moves_bind reading
  intro session
  cases session.compressions.get? id with
  | none => exact moves_throw _
  | some compressor =>
      apply moves_bind (moves_keep id _)
      intro _
      apply moves_bind (moves_building compressor.growing_next)
      intro outcome
      cases outcome with
      | ended weight => exact moves_bind (moves_keep id _) fun _ => moves_pure _
      | bit weight wire rest less => exact moves_bind (moves_keep id _) fun _ => moves_pure _

theorem moves_ofExcept {α : Type} (result : Except Error α) :
    Moves Follows (ofExcept result : Action α) := by
  cases result with
  | error error => exact moves_throw error
  | ok value => exact moves_pure value

/-- A request that is answered from what a builder returns only makes the netlist grow. -/
theorem moves_reply {α : Type} {builder : Builder α} (growing : builder.Growing)
    (reply : α → Reply) :
    Moves Follows (building builder >>= fun value => pure (reply value)) :=
  moves_bind (moves_building growing) fun _ => moves_pure _

/-- Serving a request only makes the netlist grow, one case for each request. -/
theorem moves_serve (request : Request) : Moves Follows (serve request) := by
  cases request with
  | input label => exact moves_reply (Builder.growing_input _) _
  | gate op a b => exact moves_reply (Builder.growing_gate op a b) _
  | buffer source => exact moves_reply (Builder.growing_buffer source) _
  | append opOrLabel operands => exact moves_reply (Builder.growing_append opOrLabel operands) _
  | makeInputs label count =>
      exact moves_bind (moves_ofExcept count.count) fun number =>
        moves_reply (growing_makeInputs label.display number) _
  | halfAdder x y => exact moves_reply (growing_halfAdder x y) _
  | fullAdder x y z => exact moves_reply (growing_fullAdder x y z) _
  | compress columns => exact moves_reply (growing_compress columns) _
  | compressColumns columns => exact moves_reply (growing_compressColumns columns) _
  | start id columns => exact moves_bind (moves_keep id _) fun _ => moves_pure _
  | advance id => exact moves_advance id
  | adder a b => exact moves_reply (growing_adder a b) _
  | multiplier a b => exact moves_reply (growing_multiplier a b) _
  | popcount bits => exact moves_reply (growing_popcount bits) _

/-- One request, granted or refused, only makes the netlist grow. -/
theorem after_grows (session : Session) (request : Request) :
    session.netlist.Grows (session.after request).netlist := by
  have followed := moves_serve request session
  simp only [leaving, after, Follows] at followed ⊢
  cases outcome : (serve request).run session <;> simpa [outcome] using followed

/-- Any number of requests only make the netlist grow. -/
theorem serveAll_grows (session : Session) (requests : List Request) :
    session.netlist.Grows (session.serveAll requests).netlist := by
  unfold serveAll
  induction requests generalizing session with
  | nil => exact .refl
  | cons request rest inductionHypothesis =>
      exact (session.after_grows request).trans (inductionHypothesis (session.after request))

end Session

/-- In a netlist that requests lead to, every gate uses earlier wires only. -/
theorem Netlist.Reachable.ordered {nl : Netlist} (reachable : nl.Reachable) : nl.Ordered := by
  obtain ⟨name, requests, rfl⟩ := reachable
  exact (Session.serveAll_grows _ requests).ordered (ordered_empty name)

/-- Three inputs and nothing else. -/
def threeInputs : Netlist where
  name := "three"
  gates := #[.input "x", .input "y", .input "z"]

theorem threeInputs_reachable : threeInputs.Reachable :=
  ⟨"three", [.input (.text "x"), .input (.text "y"), .input (.text "z")], rfl⟩

end CarrySave
