/-
Module: CarrySave.Session
Layer: Sessions
Purpose: Work on one netlist, request by request.  Requests may fail, and a failed request
  leaves what it had already built.  Compressions can be paused between two bits while
  other requests are served.
Main exports: Session, Request, Reply, Session.serve, Session.serveAll, Netlist.Reachable
-/
import CarrySave.Index
import CarrySave.Roster
import CarrySave.Circuit.Operator

namespace CarrySave

/-- A netlist being built and the compressions under way on it. -/
structure Session where
  netlist : Netlist
  compressions : Roster String Compressor := .empty

/-- A request to build something.  Wires, operators and labels are whatever the caller
gives. -/
inductive Request where
  | input (label : Datum)
  | gate (op a b : Datum)
  | buffer (source : Datum)
  | append (opOrLabel : Datum) (operands : List Datum)
  | makeInputs (label count : Datum)
  | halfAdder (x y : Datum)
  | fullAdder (x y z : Datum)
  | compress (columns : List (List Datum))
  | compressColumns (columns : List (List Datum))
  /-- Set up a compression without starting it. -/
  | start (id : String) (columns : List (List Datum))
  /-- Advance a compression to its next bit. -/
  | advance (id : String)
  | adder (a b : List Datum)
  | multiplier (a b : List Datum)
  | popcount (bits : List Datum)

/-- The answer to a request. -/
inductive Reply where
  | nothing
  | wire (reference : Datum)
  | wires (references : List Datum)
  | bit (weight : Nat) (reference : Datum)
  | bits (pairs : List (Nat × Datum))

/-- Requests act on a session, and a failure keeps what was done before it. -/
abbrev Action : Type → Type := EStateM Error Session

namespace Session

/-- Let a builder work on the netlist of a session. -/
def building {α : Type} (builder : Builder α) : Action α := fun ⟨netlist, compressions⟩ =>
  match builder.run netlist with
  | .ok value grown => .ok value ⟨grown, compressions⟩
  | .error error grown => .error error ⟨grown, compressions⟩

/-- Remember a compression under a name. -/
def keep (id : String) (compressor : Compressor) : Action Unit :=
  modify fun session => { session with compressions := session.compressions.insert id compressor }

/-- Advance a compression.  While it runs it is set aside as ended, so that it stays so if
it fails. -/
def advance (id : String) : Action Reply := do
  let session ← get
  match session.compressions.get? id with
  | none => throw (.nothingKept id)
  | some compressor =>
      keep id ⟨compressor.weight, []⟩
      match ← building compressor.next with
      | .ended weight => do
          keep id ⟨weight, []⟩
          pure .nothing
      | .bit weight wire rest _ => do
          keep id rest
          pure (.bit weight wire)

/-- The two wires of a cell as an answer. -/
def cellReply (cell : Nat × Nat) : Reply :=
  .wires [.wire cell.1, .wire cell.2]

/-- Serve one request. -/
def serve : Request → Action Reply
  | .input label => do
      let wire ← building (Builder.input label.display)
      pure (.wire (.wire wire))
  | .gate op a b => do
      let wire ← building (Builder.gate op a b)
      pure (.wire (.wire wire))
  | .buffer source => do
      let wire ← building (Builder.buffer source)
      pure (.wire (.wire wire))
  | .append opOrLabel operands => do
      let wire ← building (Builder.append opOrLabel operands)
      pure (.wire (.wire wire))
  | .makeInputs label count => do
      let number ← ofExcept count.count
      let wires ← building (CarrySave.makeInputs label.display number)
      pure (.wires (wires.map .wire))
  | .halfAdder x y => do
      let cell ← building (CarrySave.halfAdder x y)
      pure (cellReply cell)
  | .fullAdder x y z => do
      let cell ← building (CarrySave.fullAdder x y z)
      pure (cellReply cell)
  | .compress columns => do
      let wires ← building (CarrySave.compress columns)
      pure (.wires wires)
  | .compressColumns columns => do
      let pairs ← building (CarrySave.compressColumns columns)
      pure (.bits pairs)
  | .start id columns => do
      keep id { columns }
      pure .nothing
  | .advance id => advance id
  | .adder a b => do
      let wires ← building (CarrySave.adder a b)
      pure (.wires wires)
  | .multiplier a b => do
      let wires ← building (CarrySave.multiplier a b)
      pure (.wires wires)
  | .popcount bits => do
      let wires ← building (CarrySave.popcount bits)
      pure (.wires wires)

/-- The session after a request, whether it was granted or refused. -/
def after (session : Session) (request : Request) : Session :=
  match (serve request).run session with
  | .ok _ later => later
  | .error _ later => later

/-- The session after some requests. -/
def serveAll (session : Session) (requests : List Request) : Session :=
  requests.foldl after session

end Session

/-- A netlist that some requests, granted or refused, lead to from an empty one. -/
def Netlist.Reachable (nl : Netlist) : Prop :=
  ∃ (name : String) (requests : List Request),
    (Session.serveAll { netlist := { name } } requests).netlist = nl

end CarrySave
