/-
Module: CarrySave.Proofs.Session.Interleaving
Layer: Proofs
Purpose: Compressions that are paused while other requests are served.  Whatever else happens on
  the netlist in the meantime, other compressions included, a compression goes on where it was:
  its account, the bits given so far against the columns still to be reduced, stays balanced.
  Every request keeps the account of a compression, either because it leaves that compression
  alone and only makes the netlist grow, or because it advances it.
Main exports: Compressor.Balanced, Session.Tracks, Session.Tracks.spared, Session.Tracks.advanced,
  Session.compression_undisturbed
-/
import CarrySave.Proofs.Circuit.Preservation

namespace CarrySave

/-! ### The account of a compression -/

namespace Compressor

/-- What a compression that started from some columns has given, and what it still has, balance
on a netlist: the bits are of increasing weights, all of them below the weight of the lowest
column left, and bits and columns left are together worth the columns at the start. -/
structure Balanced (nl : Netlist) (columns : List (List Nat)) (bits : List (Nat × Nat))
    (weight : Nat) (pending : List (List Nat)) : Prop where
  has_bits : nl.Has (bits.map (·.2))
  has_pending : ∀ column ∈ pending, nl.Has column
  increasing : (bits.map (·.1)).Pairwise (· < ·)
  below : ∀ earlier ∈ bits.map (·.1), earlier < weight
  worth_eq : ∀ level, nl.Settled level →
    weigh (bitValue ∘ level) bits + worth (bitValue ∘ level) weight pending =
      worth (bitValue ∘ level) 0 columns

namespace Balanced

variable {nl grown : Netlist} {columns pending : List (List Nat)} {bits : List (Nat × Nat)}
  {weight : Nat}

theorem start (has : ∀ column ∈ columns, nl.Has column) : Balanced nl columns [] 0 columns where
  has_bits := nl.has_nil
  has_pending := has
  increasing := List.Pairwise.nil
  below := by simp
  worth_eq := by simp

/-- Growth of the netlist, whatever causes it, keeps the balance. -/
theorem grows (balanced : Balanced nl columns bits weight pending) (growth : nl.Grows grown) :
    Balanced grown columns bits weight pending where
  has_bits := balanced.has_bits.grows growth
  has_pending := has_columns_grows balanced.has_pending growth
  increasing := balanced.increasing
  below := balanced.below
  worth_eq := fun level settled => balanced.worth_eq level (settled.of_grows growth)

/-- Running the compression keeps the balance. -/
theorem run (balanced : Balanced nl columns bits weight pending) {more : List (Nat × Nat)}
    {last : Stage} (run : Run ⟨nl, weight, pending, balanced.has_pending⟩ more last) :
    Balanced last.netlist columns (bits ++ more) last.weight last.columns := by
  obtain ⟨rises, lower⟩ := run.weights_lt
  obtain ⟨increase, least⟩ := run.weights_increase
  refine ⟨?_, last.has, ?_, ?_, ?_⟩
  · rw [List.map_append, Netlist.has_append_iff]
    exact ⟨balanced.has_bits.grows run.grows, run.has_bits⟩
  · rw [List.map_append, List.pairwise_append]
    exact ⟨balanced.increasing, increase, fun earlier early later late =>
      Nat.lt_of_lt_of_le (balanced.below earlier early) (least later late)⟩
  · rw [List.map_append]
    intro earlier member
    rcases List.mem_append.mp member with early | late
    · exact Nat.lt_of_lt_of_le (balanced.below earlier early) rises
    · exact lower earlier late
  · intro level settled
    rw [weigh_append, add_assoc, run.worth_eq settled]
    exact balanced.worth_eq level (settled.of_grows run.grows)

end Balanced

end Compressor

/-! ### What requests do to a compression -/

/-- Whether a request sets up a compression under a name. -/
def Request.starts (id : String) : Request → Bool
  | .start other _ => other == id
  | _ => false

/-- Whether a request advances the compression of a name. -/
def Request.advances (id : String) : Request → Bool
  | .advance other => other == id
  | _ => false

namespace Session

/-- From one session to a later one, the compression of a name is the same. -/
def Spares (id : String) (session later : Session) : Prop :=
  later.compressions.get? id = session.compressions.get? id

instance (id : String) : Std.Refl (Spares id) := ⟨fun _ => rfl⟩

instance (id : String) : Trans (Spares id) (Spares id) (Spares id) :=
  ⟨fun one two => Eq.trans two one⟩

theorem spares_building (id : String) {α : Type} (builder : Builder α) :
    Moves (Spares id) (building builder) := by
  intro session
  simp only [leaving, EStateM.run, building, Spares]
  cases builder session.netlist <;> rfl

theorem spares_keep {id other : String} (different : other ≠ id) (compressor : Compressor) :
    Moves (Spares id) (keep other compressor) :=
  fun session => by
    have kept := Roster.get?_insert session.compressions other id compressor
    rwa [if_neg (Ne.symm different)] at kept

theorem spares_advance {id other : String} (different : other ≠ id) :
    Moves (Spares id) (advance other) := by
  have reading : Moves (Spares id) (get : Action Session) := fun _ => rfl
  apply moves_bind reading
  intro session
  cases session.compressions.get? other with
  | none => exact moves_throw _
  | some compressor =>
      apply moves_bind (spares_keep different _)
      intro _
      apply moves_bind (spares_building id compressor.next)
      intro outcome
      cases outcome with
      | ended weight => exact moves_bind (spares_keep different _) fun _ => moves_pure _
      | bit weight wire rest less => exact moves_bind (spares_keep different _) fun _ => moves_pure _

/-- A request that neither sets up nor advances a compression leaves it alone.  Most requests are
answered from what a builder returns, and builders know nothing of compressions. -/
theorem spares_serve {id : String} {request : Request} (notStart : request.starts id = false)
    (notAdvance : request.advances id = false) : Moves (Spares id) (serve request) := by
  cases request with
  | start other columns =>
      have different : other ≠ id := by simpa [Request.starts] using notStart
      exact moves_bind (spares_keep different _) fun _ => moves_pure _
  | advance other =>
      have different : other ≠ id := by simpa [Request.advances] using notAdvance
      exact spares_advance different
  | makeInputs label count =>
      refine moves_bind ?_ fun number => moves_bind (spares_building id _) fun _ => moves_pure _
      cases count.count with
      | error error => exact moves_throw error
      | ok number => exact moves_pure number
  | _ => exact moves_bind (spares_building id _) fun _ => moves_pure _

theorem spares_after (session : Session) {id : String} {request : Request}
    (notStart : request.starts id = false) (notAdvance : request.advances id = false) :
    (session.after request).compressions.get? id = session.compressions.get? id := by
  have spared := spares_serve notStart notAdvance session
  simp only [leaving, after, Spares] at spared ⊢
  cases outcome : (serve request).run session <;> simpa [outcome] using spared

/-! ### Answers -/

/-- The answer to a request. -/
def answer (session : Session) (request : Request) : Except Error Reply :=
  match (serve request).run session with
  | .ok reply _ => .ok reply
  | .error error _ => .error error

/-- The answers that the advances of one compression get among some requests, in order. -/
def answersTo (id : String) : Session → List Request → List (Except Error Reply)
  | _, [] => []
  | session, request :: rest =>
      let later := answersTo id (session.after request) rest
      if request.advances id then session.answer request :: later else later

/-- The answer that gives a bit. -/
def bitAnswer (bit : Nat × Nat) : Except Error Reply :=
  .ok (.bit bit.1 (.wire bit.2))

theorem serveAll_append (session : Session) (requests more : List Request) :
    session.serveAll (requests ++ more) = (session.serveAll requests).serveAll more := by
  simp [serveAll]

theorem answersTo_append (id : String) (session : Session) (requests more : List Request) :
    answersTo id session (requests ++ more) =
      answersTo id session requests ++ answersTo id (session.serveAll requests) more := by
  induction requests generalizing session with
  | nil => rfl
  | cons request rest inductionHypothesis =>
      have continued := inductionHypothesis (session.after request)
      simp only [List.cons_append, answersTo, continued]
      split <;> rfl

/-! ### Following one compression through a session -/

/-- A compression that started from some columns is in balance, and it has been asked for more
`ended` times after its columns had run out. -/
structure Tracks (session : Session) (id : String) (columns : List (List Nat))
    (bits : List (Nat × Nat)) (ended weight : Nat) (pending : List (List Nat)) : Prop where
  kept : session.compressions.get? id = some ⟨weight, Compressor.references pending⟩
  exhausted : 0 < ended → pending = []
  balanced : Compressor.Balanced session.netlist columns bits weight pending

/-- Advancing a compression serves its next bit and keeps what is left of it. -/
theorem run_advance {session : Session} {id : String} {compressor : Compressor}
    {outcome : Compressor.Advance compressor.work} {grown : Netlist}
    (kept : session.compressions.get? id = some compressor)
    (runs : compressor.next.run session.netlist = .ok outcome grown) :
    let entered := session.compressions.insert id ⟨compressor.weight, []⟩
    (advance id).run session =
      match outcome with
      | .ended weight => .ok .nothing ⟨grown, entered.insert id ⟨weight, []⟩⟩
      | .bit weight wire rest _ =>
          .ok (.bit weight wire) ⟨grown, entered.insert id rest⟩ := by
  have built : (building compressor.next).run
      ⟨session.netlist, session.compressions.insert id ⟨compressor.weight, []⟩⟩ =
      .ok outcome ⟨grown, session.compressions.insert id ⟨compressor.weight, []⟩⟩ := by
    simp only [EStateM.run, building] at runs ⊢
    rw [runs]
  simp only [advance, EStateM.run_bind, EStateM.run_get, kept, keep, EStateM.run_modify, built]
  cases outcome <;> rfl

namespace Tracks

variable {session : Session} {id : String} {columns pending : List (List Nat)}
  {bits : List (Nat × Nat)} {ended weight : Nat}

/-- A compression is followed from the request that sets it up. -/
theorem start (has : ∀ column ∈ columns, session.netlist.Has column) :
    (session.after (.start id (Compressor.references columns))).Tracks id columns [] 0 0
      columns where
  kept := by
    have entered := Roster.get?_insert session.compressions id id
      ⟨0, Compressor.references columns⟩
    rwa [if_pos rfl] at entered
  exhausted := fun impossible => absurd impossible (Nat.lt_irrefl 0)
  balanced := (Compressor.Balanced.start has).grows (session.after_grows _)

/-- A request that is not about the compression keeps its account. -/
theorem spared (tracks : session.Tracks id columns bits ended weight pending) {request : Request}
    (notStart : request.starts id = false) (notAdvance : request.advances id = false) :
    (session.after request).Tracks id columns bits ended weight pending where
  kept := (session.spares_after notStart notAdvance).trans tracks.kept
  exhausted := tracks.exhausted
  balanced := tracks.balanced.grows (session.after_grows request)

/-- Advancing the compression is never refused.  Either its columns have run out, and stay so, or
it gives one more bit. -/
theorem advanced (tracks : session.Tracks id columns bits ended weight pending) :
    (session.answer (.advance id) = .ok .nothing ∧ ∃ top,
        (session.after (.advance id)).Tracks id columns bits (ended + 1) top []) ∨
      (ended = 0 ∧ ∃ bit top left, session.answer (.advance id) = bitAnswer bit ∧
        (session.after (.advance id)).Tracks id columns (bits ++ [bit]) 0 top left) := by
  obtain ⟨outcome, grown, runs, reaches⟩ :=
    Compressor.next_run ⟨session.netlist, weight, pending, tracks.balanced.has_pending⟩
  have served := run_advance tracks.kept runs
  change (serve (.advance id)).run session = _ at served
  cases outcome with
  | ended top =>
      obtain ⟨last, run, rfl, rfl, empty⟩ := reaches
      have balanced := tracks.balanced.run run
      rw [List.append_nil, empty] at balanced
      refine .inl ⟨by rw [answer, served], last.weight, ?_⟩
      rw [after, served]
      refine ⟨?_, fun _ => rfl, balanced⟩
      exact (Roster.get?_insert _ id id _).trans (if_pos rfl)
  | bit place wire rest less =>
      obtain ⟨bit, left, rfl, rfl, rfl, run⟩ := reaches
      -- Without columns there would be no bit, so the compression has not ended before.
      have notOver : ended = 0 := by
        rcases Nat.eq_zero_or_pos ended with zero | positive
        · exact zero
        · have nothing := (run.of_nil (tracks.exhausted positive)).1
          cases nothing
      refine .inr ⟨notOver, (place, bit), left.weight, left.columns, by rw [answer, served]; rfl, ?_⟩
      rw [after, served]
      refine ⟨?_, fun impossible => absurd impossible (Nat.lt_irrefl 0), tracks.balanced.run run⟩
      exact (Roster.get?_insert _ id id _).trans (if_pos rfl)

/-- A compression that is followed stays so through all requests that do not set it up anew, and
its advances are answered by its bits and then by nothing. -/
theorem serveAll (tracks : session.Tracks id columns [] 0 weight pending) (requests : List Request)
    (kept : ∀ request ∈ requests, request.starts id = false) :
    ∃ bits ended top left,
      answersTo id session requests = bits.map bitAnswer ++ List.replicate ended (.ok .nothing) ∧
      (session.serveAll requests).Tracks id columns bits ended top left := by
  induction requests using List.reverseRecOn with
  | nil => exact ⟨[], 0, weight, pending, rfl, tracks⟩
  | append_singleton requests request inductionHypothesis =>
      obtain ⟨bits, ended, top, left, answered, continued⟩ := inductionHypothesis
        fun other member => kept other (List.mem_append_left _ member)
      have notStart := kept request (by simp)
      rw [answersTo_append, answered, serveAll_append]
      by_cases advances : request.advances id = true
      · obtain rfl : request = .advance id := by
          cases request <;> simp_all [Request.advances]
        simp only [answersTo, Request.advances, beq_self_eq_true, if_true]
        rcases continued.advanced with ⟨nothing, top, later⟩ | ⟨rfl, bit, top, left, gives, later⟩
        · refine ⟨bits, ended + 1, top, [], ?_, later⟩
          rw [nothing, List.replicate_succ', List.append_assoc]
        · refine ⟨bits ++ [bit], 0, top, left, ?_, later⟩
          simp [gives]
      · have notAdvance : request.advances id = false := by simpa using advances
        refine ⟨bits, ended, top, left, ?_, continued.spared notStart notAdvance⟩
        simp [answersTo, notAdvance]

end Tracks

/-- Interleaved compressions do not disturb each other.  Take any requests on a netlist that was
empty at first, among them one that sets up a compression of existing wires, and any later point
before it is set up anew; the requests in between may build what they like, be refused, or set
up and advance other compressions.  Then no advance of the compression was refused: the answers
are bits of increasing weights, followed by nothing once it has ended.  The columns at the start,
the bits and the columns that are left consist of wires that exist at that point.  Whatever bytes
the inputs are given then, bits and columns left are together worth what the columns were worth at
the start, and when the compression has ended, the bits alone are. -/
theorem compression_undisturbed {name : String} {earlier later : List Request} {id : String}
    {columns : List (List Nat)}
    (has : ∀ column ∈ columns,
      (Session.serveAll { netlist := { name } } earlier).netlist.Has column)
    (kept : ∀ request ∈ later, request.starts id = false) :
    let started := Session.serveAll { netlist := { name } }
      (earlier ++ [.start id (Compressor.references columns)])
    let session := started.serveAll later
    ∃ (bits : List (Nat × Nat)) (ended weight : Nat) (pending : List (List Nat)),
      answersTo id started later = bits.map bitAnswer ++ List.replicate ended (.ok .nothing) ∧
      (bits.map (·.1)).Pairwise (· < ·) ∧
      session.compressions.get? id = some ⟨weight, Compressor.references pending⟩ ∧
      (∀ column ∈ columns, session.netlist.Has column) ∧
      session.netlist.Has (bits.map (·.2)) ∧
      (∀ column ∈ pending, session.netlist.Has column) ∧
      (0 < ended → pending = []) ∧
      ∀ assignment : Assignment, assignment.Covers session.netlist →
        ∃ level : Nat → Bool,
          session.netlist.evaluate assignment = .ok (signalsOf session.netlist.size level) ∧
          weigh (bitValue ∘ level) bits + worth (bitValue ∘ level) weight pending =
            worth (bitValue ∘ level) 0 columns ∧
          (0 < ended → weigh (bitValue ∘ level) bits = worth (bitValue ∘ level) 0 columns) := by
  intro started session
  have start : started.Tracks id columns [] 0 0 columns := by
    have first := @Tracks.start _ id _ has
    simpa [started, serveAll] using first
  obtain ⟨bits, ended, weight, pending, answered, tracks⟩ := start.serveAll later kept
  have balanced := tracks.balanced
  have still : ∀ column ∈ columns, session.netlist.Has column :=
    Compressor.has_columns_grows start.balanced.has_pending (serveAll_grows started later)
  refine ⟨bits, ended, weight, pending, answered, balanced.increasing, tracks.kept, still,
    balanced.has_bits, balanced.has_pending, tracks.exhausted, ?_⟩
  intro assignment covers
  have reachable : session.netlist.Reachable := by
    refine ⟨name, earlier ++ [.start id (Compressor.references columns)] ++ later, ?_⟩
    rw [serveAll_append]
  obtain ⟨level, evaluated, settled, _⟩ := Netlist.evaluate_settled reachable.ordered covers
  have equal := balanced.worth_eq level settled
  refine ⟨level, evaluated, equal, ?_⟩
  intro positive
  rwa [tracks.exhausted positive, worth_nil, add_zero] at equal

/-- The requests that three inputs come from. -/
def askThreeInputs : List Request :=
  [.input (.text "x"), .input (.text "y"), .input (.text "z")]

/-- Requests that advance two compressions in turns, past the end of one of them, with an input
and a gate in between and two requests that are refused. -/
def takeTurns : List Request :=
  [.advance "p", .start "q" [[.wire 2, .wire 3], [.null, .wire 0]], .advance "q",
    .gate (.text "nand") (.wire 0) (.wire 1), .advance "p", .input (.text "late"), .advance "q",
    .gate (.op .or) (.wire 4) (.wire 9), .advance "p", .advance "p"]

/-- The other compression is refused in the end, because one of its wires does not exist. -/
example : (answersTo "q" (Session.serveAll { netlist := { name := "three" } }
    (askThreeInputs ++ [.start "p" (Compressor.references [[0, 1, 2], [1]])])) takeTurns).map
      (fun answer => answer matches .ok _) = [true, false] := by
  cbv

theorem compression_undisturbed_takeTurns :
    (∀ column ∈ [[0, 1, 2], [1]],
      (Session.serveAll { netlist := { name := "three" } } askThreeInputs).netlist.Has column) ∧
    (∀ request ∈ takeTurns, request.starts "p" = false) ∧
    ∃ (bits : List (Nat × Nat)) (ended : Nat),
      answersTo "p" (Session.serveAll { netlist := { name := "three" } }
        (askThreeInputs ++ [.start "p" (Compressor.references [[0, 1, 2], [1]])])) takeTurns =
          bits.map bitAnswer ++ List.replicate ended (.ok .nothing) ∧
      (bits.map (·.1)).Pairwise (· < ·) := by
  have has : ∀ column ∈ [[0, 1, 2], [1]],
      (Session.serveAll { netlist := { name := "three" } } askThreeInputs).netlist.Has column := by
    decide
  have kept : ∀ request ∈ takeTurns, request.starts "p" = false := by
    simp [takeTurns, Request.starts]
  obtain ⟨bits, ended, _, _, answered, increasing, _⟩ := compression_undisturbed has kept
  exact ⟨has, kept, bits, ended, answered, increasing⟩

end Session

end CarrySave
