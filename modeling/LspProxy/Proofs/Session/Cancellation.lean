import LspProxy.Proofs.Session.Phases

/-!
# Sessions that are cancelled

A cancelled session is to come to its end by the turns of its own tasks, whatever the server does. Its
relays of the server's output end at once, and so does the relay of the client's messages if it is about
to read. But a relay that has begun to write a message goes on writing, and the run waits for it before it
stops the server. So what decides is whether the frames that are still to be written fit into the pipe to
the server (`Roomy`), and no turn of the session's own changes that. If they do, or if nobody reads them,
every order of turns ends with the server reaped; if they do not, every order of turns ends with the
session held up, its server untouched (`cancelled_session_returns_iff_roomy`), and it stays held up until
the far end of the pipe is read from or closed (`heldUp_persists`).

The turns are counted by a measure of the whole session, to which each task adds the turns that it still
has, a writing relay one for each byte.
-/
namespace LspProxy

/-! ## Room in a pipe -/

namespace Pipe

variable {pipe after : Pipe} {bytes rest : Bytes}

/-- A write waits exactly if somebody reads, there is no room, and there is something to write. -/
theorem push_blocked_iff :
    (pipe.push bytes).1 = .blocked ↔ pipe.readable = true ∧ pipe.room = 0 ∧ bytes ≠ [] := by
  unfold push
  cases pipe.readable with
  | false => simp
  | true => by_cases full : pipe.room = 0 ∧ bytes ≠ [] <;> simp [full]

/-- A write is refused only where nobody reads. -/
theorem push_refused {failure : Failure} (pushed : pipe.push bytes = (.refused failure, after)) :
    pipe.readable = false ∧ after = pipe := by
  unfold push at pushed
  cases readable : pipe.readable with
  | false =>
    simp only [readable, Bool.false_eq_true, not_false_eq_true, if_true, Prod.mk.injEq] at pushed
    exact ⟨rfl, pushed.2.symm⟩
  | true =>
    simp only [readable, not_true_eq_false, if_false] at pushed
    split at pushed
    · exact absurd pushed (by simp)
    · exact absurd pushed (by simp)

/-- What a write takes off the bytes it takes off the room. -/
theorem push_taken (pushed : pipe.push bytes = (.taken rest, after)) :
    pipe.readable = true ∧ after.readable = true ∧
      after.room + bytes.length = pipe.room + rest.length ∧ (rest ≠ [] → rest.length < bytes.length) := by
  unfold push at pushed
  cases readable : pipe.readable with
  | false => simp [readable] at pushed
  | true =>
    simp only [readable, not_true_eq_false, if_false] at pushed
    split at pushed
    · exact absurd pushed (by simp)
    · rename_i open_
      simp only [Prod.mk.injEq, Reception.taken.injEq] at pushed
      obtain ⟨rfl, rfl⟩ := pushed
      refine ⟨rfl, rfl, ?_, fun remains => ?_⟩
      · simp only [room, List.length_append, List.length_take, List.length_drop]
        omega
      · have some : bytes ≠ [] := by
          rintro rfl
          simp at remains
        have positive : pipe.room ≠ 0 := fun full => open_ ⟨full, some⟩
        have length : 0 < bytes.length := List.length_pos_iff.mpr some
        rw [List.length_drop]
        omega

end Pipe

namespace Session

/-! ## What is still to be done -/

/-- The turns that a copy still has once the session is cancelled. -/
def Copying.turnsLeft : Copying → Nat
  | .running _ => 1
  | .finished _ => 0

theorem Copying.turnsLeft_of_finished {relay : Copying} (finished : relay.isFinished = true) :
    relay.turnsLeft = 0 := by
  cases relay with
  | running count => exact absurd finished (by simp [isFinished])
  | finished result => rfl

/-- The bytes of a batch that are still to be written. -/
def Batch.owed (batch : Batch) : Nat := batch.rest.length + (Frame.encodeAll batch.later).length

/-- The bytes that a relay of messages has begun to write and not written. -/
def Forwarding.owed : Forwarding → Nat
  | .sending batch => batch.owed
  | .reading | .finished _ => 0

/-- The turns that a relay of messages still has at most once the session is cancelled: one for each byte
and each frame, one to end, and one more. -/
def Forwarding.turnsLeft : Forwarding → Nat
  | .reading => 1
  | .sending batch => batch.owed + batch.later.length + 2
  | .finished _ => 0

/-- Of a batch whose frame is written, what is still to be written are the frames that follow. -/
theorem Batch.next_owed {batch later : Batch} (next : batch.next = some later) :
    later.owed + batch.rest.length = batch.owed ∧ later.later.length < batch.later.length := by
  unfold Batch.next at next
  split at next
  · exact absurd next (by simp)
  · rename_i body others more
    obtain rfl := Option.some.inj next
    simp only [owed, more, Frame.encodeAll, List.map_cons, List.flatten_cons, List.length_append,
      List.length_cons]
    omega

theorem Batch.owed_of_last {batch : Batch} (last : batch.next = none) :
    batch.owed = batch.rest.length := by
  unfold Batch.next at last
  split at last
  · rename_i none
    simp [owed, none, Frame.encodeAll]
  · exact absurd last (by simp)

namespace State

variable {state after : State}

/-- The bytes for the server that the relay of messages has begun to write and not written. -/
def owed (state : State) : Nat := state.inputRelay.elim 0 fun forwarder => forwarder.stage.owed

/-- What is still to be written to the server fits into the pipe, or nobody reads it. -/
def Roomy (state : State) : Prop :=
  state.toServer.readable = false ∨ state.owed ≤ state.toServer.room

/-- The turns that the session still has at most once it is cancelled. -/
def turnsLeft (state : State) : Nat :=
  state.phase.turnsLeft + state.errorRelay.turnsLeft + state.outputRelay.elim 1 Copying.turnsLeft +
    state.inputRelay.elim 1 (fun forwarder => forwarder.stage.turnsLeft) + state.monitor.turnsLeft

/-- The run waits for the relay of messages, which waits for room in the pipe to the server. -/
structure HeldUp (state : State) : Prop where
  draining : state.phase = .drainingInput
  readable : state.toServer.readable = true
  full : state.toServer.room = 0
  sending : ∃ forwarder batch, state.inputRelay = some forwarder ∧ forwarder.stage = .sending batch ∧
    batch.rest ≠ []

theorem HeldUp.not_roomy (held : state.HeldUp) : ¬ state.Roomy := by
  obtain ⟨_, readable, full, forwarder, batch, started, sending, remains⟩ := held
  have length : 0 < batch.rest.length := List.length_pos_iff.mpr remains
  have owed : state.owed = batch.owed := by simp [State.owed, started, sending, Forwarding.owed]
  rintro (unread | fits)
  · exact absurd readable (by simp [unread])
  · rw [owed, full, Batch.owed] at fits
    omega

/-- Where neither relay is at work, nothing is still to be written. -/
theorem Quiet.roomy (quiet : state.Quiet) : state.Roomy := by
  refine .inr ?_
  have nothing : state.owed = 0 := by
    rcases quiet.input with none | ended
    · simp [owed, none]
    · unfold inputEnded at ended
      split at ended
      · rename_i started
        simp [owed, started, Forwarding.owed]
      · exact absurd ended (by simp)
  omega

/-! ## One turn -/

/-- What a turn of a cancelled session's own does to it. -/
structure Wanes (before after : State) : Prop where
  fewer : after.turnsLeft < before.turnsLeft
  cancelled : after.cancelled = true
  roomy : after.Roomy ↔ before.Roomy
  server : before.Roomy ∨ after.server = before.server

/-- To close streams neither makes nor takes room. -/
theorem closeStreams_room (state : State) :
    (closeStreams state).toServer.room = state.toServer.room ∧
      (closeStreams state).toServer.readable = state.toServer.readable := by
  unfold closeStreams
  dsimp only
  split <;> exact ⟨rfl, rfl⟩

/-- Room is looked for by the relay of messages alone, and in the pipe to the server. -/
theorem roomy_congr (input : after.inputRelay = state.inputRelay)
    (room : after.toServer.room = state.toServer.room)
    (readable : after.toServer.readable = state.toServer.readable) : after.Roomy ↔ state.Roomy := by
  unfold Roomy owed
  rw [input, room, readable]

/-- A turn of the run is one less, and starts relays that have nothing to write yet. -/
theorem Proceeds.wanes (proceeds : Proceeds state after) (cancelled : state.cancelled = true) :
    Wanes state after where
  fewer := by
    have fewer := proceeds.fewer
    have output : after.outputRelay.elim 1 Copying.turnsLeft =
        state.outputRelay.elim 1 Copying.turnsLeft := by
      rcases proceeds.outputRelay with same | ⟨none, started⟩
      · rw [same]
      · rw [none, started]
        rfl
    have input : after.inputRelay.elim 1 (fun forwarder => forwarder.stage.turnsLeft) =
        state.inputRelay.elim 1 (fun forwarder => forwarder.stage.turnsLeft) := by
      rcases proceeds.inputRelay with same | ⟨none, forwarder, started, reading⟩
      · rw [same]
      · simp [none, started, reading, Forwarding.turnsLeft]
    unfold turnsLeft
    rw [proceeds.errorRelay, proceeds.monitor, output, input]
    omega
  cancelled := proceeds.cancelled cancelled
  roomy := by
    have owed : after.owed = state.owed := by
      unfold State.owed
      rcases proceeds.inputRelay with same | ⟨none, forwarder, started, reading⟩
      · rw [same]
      · simp [none, started, reading, Forwarding.owed]
    unfold Roomy
    rw [owed, proceeds.toServer]
  server := proceeds.server.imp Quiet.roomy id

theorem copyErrors_wanes (cancelled : state.cancelled = true) (turn : state.copyErrors = some after) :
    Wanes state after := by
  obtain ⟨count, relay, errors, clientErrors, running, ends, rfl⟩ := copyErrors_cases turn
  have finished := Copying.turnsLeft_of_finished (ends cancelled)
  have before : state.errorRelay.turnsLeft = 1 := by
    rw [running]
    rfl
  refine ⟨?_, cancelled, roomy_congr rfl rfl rfl, .inr rfl⟩
  simp only [turnsLeft]
  omega

theorem copyOutput_wanes (cancelled : state.cancelled = true) (turn : state.copyOutput = some after) :
    Wanes state after := by
  obtain ⟨count, relay, fromServer, clientOutput, running, ends, rfl⟩ := copyOutput_cases turn
  have finished := Copying.turnsLeft_of_finished (ends cancelled)
  have before : state.outputRelay.elim 1 Copying.turnsLeft = 1 := by
    rw [running]
    rfl
  obtain ⟨room, readable⟩ := closeStreams_room
    { state with outputRelay := some relay, fromServer, clientOutput }
  refine ⟨?_, cancelled, roomy_congr rfl room readable, .inr rfl⟩
  simp only [turnsLeft, closeStreams, Option.elim_some]
  omega

theorem watch_wanes (cancelled : state.cancelled = true) (turn : state.watch = some after) :
    Wanes state after := by
  have later := (onward_watch turn).cancelled cancelled
  obtain ⟨events, monitor, ownCancelled, rfl, _, fewer⟩ := watch_cases turn
  have one := fewer cancelled
  refine ⟨?_, later, roomy_congr rfl rfl rfl, .inr rfl⟩
  simp only [turnsLeft, add]
  omega

theorem wake_wanes (cancelled : state.cancelled = true) (turn : state.wake = some after) :
    Wanes state after := by
  obtain ⟨monitor, rfl, fewer⟩ := wake_cases turn
  refine ⟨?_, cancelled, roomy_congr rfl rfl rfl, .inr rfl⟩
  simp only [turnsLeft]
  omega

/-- What a relay of messages does to a cancelled session by a turn that leaves it fewer turns, and that
takes as much off the room as off what is still to be written. -/
theorem putForwarder_wanes {forwarder next : Forwarder} {toServer : Pipe} {disk : Disk}
    {events : List Log.Event} (cancelled : state.cancelled = true)
    (started : state.inputRelay = some forwarder)
    (fewer : next.stage.turnsLeft < forwarder.stage.turnsLeft)
    (roomy : toServer.readable = false ∨ next.stage.owed ≤ toServer.room ↔ state.Roomy) :
    Wanes state (({ state with toServer, disk }.add events).putForwarder next) := by
  obtain ⟨room, readable⟩ := closeStreams_room
    { { state with toServer, disk }.add events with inputRelay := some next }
  refine ⟨?_, cancelled, ?_, .inr rfl⟩
  · simp only [turnsLeft, putForwarder, closeStreams, add, started, Option.elim_some]
    omega
  · rw [← roomy]
    unfold Roomy
    rw [putForwarder, room, readable]
    rfl

/-- A cancelled relay of messages ends where it would read, and writes on where it writes. -/
theorem forward_wanes (cancelled : state.cancelled = true) (turn : state.forward = some after) :
    Wanes state after := by
  obtain ⟨forwarder, started, ⟨reading, read⟩ | ⟨batch, sending, sent⟩⟩ := forward_cases turn
  · rcases readMessage_cases read with ⟨_, rfl⟩ | ⟨active, _⟩
    · have unmoved : state.putForwarder (forwarder.finish .cancelled) =
          ({ state with toServer := state.toServer, disk := state.disk }.add []).putForwarder
            (forwarder.finish .cancelled) := by
        rw [add_nil]
      rw [unmoved]
      refine putForwarder_wanes cancelled started ?_ ?_
      · simp [reading, Forwarder.finish, Forwarding.turnsLeft]
      · simp [Forwarder.finish, Forwarding.owed, Roomy, State.owed, started, reading]
    · exact absurd active (by simp [inputCancelled, cancelled])
  · have owed : state.owed = batch.owed := by simp [State.owed, started, sending, Forwarding.owed]
    obtain ⟨toServer, disk, events, next, rfl, ⟨failure, pushed, stage⟩ |
      ⟨rest, pushed, remains, stage⟩ | ⟨pushed, stage⟩⟩ := sendBatch_cases sent
    · obtain ⟨unread, rfl⟩ := Pipe.push_refused pushed
      refine putForwarder_wanes cancelled started ?_ ?_
      · simp [stage, sending, Forwarding.turnsLeft]
      · simp [stage, Forwarding.owed, Roomy, unread]
    · obtain ⟨readable, readable', room, shorter⟩ := Pipe.push_taken pushed
      have less := shorter remains
      refine putForwarder_wanes cancelled started ?_ ?_
      · simp only [stage, sending, Forwarding.turnsLeft, Batch.owed]
        omega
      · simp only [stage, Forwarding.owed, Roomy, owed, readable, readable', Batch.owed,
          Bool.true_eq_false, false_or]
        omega
    · obtain ⟨readable, readable', room, _⟩ := Pipe.push_taken pushed
      rw [List.length_nil] at room
      cases later : batch.next with
      | none =>
        simp only [later] at stage
        have last := Batch.owed_of_last later
        refine putForwarder_wanes cancelled started ?_ ?_
        · simp only [stage, sending, Forwarding.turnsLeft]
          omega
        · simp only [stage, Forwarding.owed, Roomy, owed, readable, readable', Bool.true_eq_false,
            false_or]
          omega
      | some batch' =>
        simp only [later] at stage
        obtain ⟨written, fewer⟩ := Batch.next_owed later
        refine putForwarder_wanes cancelled started ?_ ?_
        · simp only [stage, sending, Forwarding.turnsLeft]
          omega
        · simp only [stage, Forwarding.owed, Roomy, owed, readable, readable', Bool.true_eq_false,
            false_or]
          omega

theorem advance_wanes {task : Task} (orderly : state.Orderly) (cancelled : state.cancelled = true)
    (turn : state.advance task = some after) : Wanes state after := by
  cases task with
  | run => exact (proceed_proceeds orderly turn).wanes cancelled
  | giveUp => exact (giveUp_proceeds orderly turn).wanes cancelled
  | errorRelay => exact copyErrors_wanes cancelled turn
  | outputRelay => exact copyOutput_wanes cancelled turn
  | inputRelay => exact forward_wanes cancelled turn
  | watch => exact watch_wanes cancelled turn
  | wake => exact wake_wanes cancelled turn

/-! ## Which task can go on -/

/-- Some task of the session's own has a turn. -/
def Advances (state : State) : Prop := ∃ task, (state.advance task).isSome = true

/-- A watch of a cancelled session has a turn until it has ended. -/
theorem watch_advances (cancelled : state.cancelled = true) :
    (state.watch).isSome = true ∨ state.monitor = .absent ∨
      ∃ verdict, state.monitor = .finished verdict := by
  unfold watch
  cases monitor : state.monitor with
  | absent => exact .inr (.inl rfl)
  | finished verdict => exact .inr (.inr ⟨verdict, rfl⟩)
  | fresh interval => exact .inl rfl
  | asking interval parent checks => exact .inl (by simp [cancelled, Parent.look])
  | resting interval parent checks wake => exact .inl (by simp [cancelled])

/-- A relay of messages that has not ended has a turn in a cancelled session, unless its write waits for
room. -/
theorem forward_advances {forwarder : Forwarder} (cancelled : state.cancelled = true)
    (started : state.inputRelay = some forwarder) (active : ¬ state.inputEnded = true) :
    (state.forward).isSome = true ∨
      (state.toServer.readable = true ∧ state.toServer.room = 0 ∧
        ∃ batch, forwarder.stage = .sending batch ∧ batch.rest ≠ []) := by
  unfold forward
  rw [started]
  simp only [Option.bind_eq_bind, Option.bind_some]
  cases stage : forwarder.stage with
  | reading => exact .inl (by simp [readMessage, inputCancelled, cancelled])
  | finished result =>
    obtain ⟨_, buffer, interceptor, log, totals⟩ := forwarder
    obtain rfl := stage
    exact absurd (by simp [inputEnded, started]) active
  | sending batch =>
    by_cases blocked : (state.toServer.push batch.rest).1 = .blocked
    · obtain ⟨readable, full, remains⟩ := Pipe.push_blocked_iff.mp blocked
      exact .inr ⟨readable, full, batch, rfl, remains⟩
    · refine .inl ?_
      simp only [sendBatch]
      cases pushed : state.toServer.push batch.rest with
      | mk reception toServer =>
        rw [pushed] at blocked
        cases reception with
        | blocked => exact absurd rfl blocked
        | refused failure => rfl
        | taken rest => cases rest <;> rfl

theorem copyOutput_advances {relay : Copying} (cancelled : state.cancelled = true)
    (started : state.outputRelay = some relay) (active : ¬ state.outputEnded = true) :
    (state.copyOutput).isSome = true := by
  cases relay with
  | running count => simp [copyOutput, started, cancelled, Copying.advance]
  | finished result => exact absurd (by simp [outputEnded, started]) active

theorem copyErrors_advances (cancelled : state.cancelled = true)
    (active : ¬ state.errorRelay.isFinished = true) : (state.copyErrors).isSome = true := by
  cases relay : state.errorRelay with
  | running count => simp [copyErrors, relay, cancelled, Copying.advance]
  | finished result => exact absurd (by simp [relay, Copying.isFinished]) active

/-- The run finds the end of each relay that it waits for, and the status of a server that has ended. -/
theorem joinErrors?_of_finished (ended : state.errorRelay.isFinished = true) :
    ∃ after, state.joinErrors? = some after := by
  cases relay : state.errorRelay with
  | running count => simp [relay, Copying.isFinished] at ended
  | finished result => exact Option.isSome_iff_exists.mp (by simp [joinErrors?, relay])

theorem joinOutput?_of_ended (ended : state.outputEnded = true) :
    ∃ after, state.joinOutput? = some after := by
  unfold outputEnded at ended
  split at ended
  · rename_i started
    exact Option.isSome_iff_exists.mp (by simp [joinOutput?, started])
  · exact absurd ended (by simp)

theorem joinInput?_of_ended (ended : state.inputEnded = true) :
    ∃ after, state.joinInput? = some after := by
  unfold inputEnded at ended
  split at ended
  · rename_i started
    exact Option.isSome_iff_exists.mp (by simp [joinInput?, started])
  · exact absurd ended (by simp)

theorem reapStopped?_of_ended (ended : state.server.Ended) :
    ∃ after, state.reapStopped? = some after := by
  obtain ⟨status, server⟩ := ended
  exact Option.isSome_iff_exists.mp (by simp [reapStopped?, reap?, server])

/-- A cancelled session leaves its start. -/
theorem leaveStart_isSome (cancelled : state.cancelled = true) (prepared : state.prepared.isSome = true) :
    state.leaveStart.isSome = true := by
  obtain ⟨listener, prepared⟩ := Option.isSome_iff_exists.mp prepared
  unfold leaveStart
  rw [prepared]
  simp only [Option.bind_eq_bind, Option.bind_some]
  split
  · split <;> rfl
  · split
    · rfl
    · simp [cancelled]

/-- In every phase but the last, the run of a cancelled session or the task that it waits for has a turn,
unless the session is held up. -/
theorem advances_or_heldUp (orderly : state.Orderly) (cancelled : state.cancelled = true) :
    (∃ result, state.phase = .returned result) ∨ state.Advances ∨ state.HeldUp := by
  unfold Orderly at orderly
  have run (turn : state.proceed.isSome = true) : state.Advances := ⟨.run, turn⟩
  cases phase : state.phase with
  | starting =>
    rw [phase] at orderly
    refine .inr (.inl (run ?_))
    simp only [proceed, phase]
    exact leaveStart_isSome cancelled orderly.1
  | stopping setback =>
    rw [phase] at orderly
    obtain ⟨middle, stopped⟩ := reapStopped?_of_ended orderly.2
    exact .inr (.inl (run (by simp [proceed, phase, stopped])))
  | closing setback =>
    refine .inr (.inl ?_)
    by_cases ended : state.errorRelay.isFinished = true
    · refine run ?_
      obtain ⟨middle, joined⟩ := joinErrors?_of_finished ended
      simp only [proceed, phase, joined, Option.bind_eq_bind, Option.bind_some]
      cases setback <;> rfl
    · exact ⟨.errorRelay, copyErrors_advances cancelled ended⟩
  | opening => exact .inr (.inl (run (by simp [proceed, phase])))
  | draining =>
    rw [phase] at orderly
    obtain ⟨relay, started⟩ := Option.isSome_iff_exists.mp orderly.1
    refine .inr (.inl ?_)
    by_cases ended : state.outputEnded = true
    · obtain ⟨middle, joined⟩ := joinOutput?_of_ended ended
      exact run (by simp [proceed, phase, joined])
    · exact ⟨.outputRelay, copyOutput_advances cancelled started ended⟩
  | drainingErrors =>
    refine .inr (.inl ?_)
    by_cases ended : state.errorRelay.isFinished = true
    · obtain ⟨middle, joined⟩ := joinErrors?_of_finished ended
      exact run (by simp [proceed, phase, joined])
    · exact ⟨.errorRelay, copyErrors_advances cancelled ended⟩
  | drainingInput =>
    rw [phase] at orderly
    obtain ⟨_, _, started, _⟩ := orderly
    obtain ⟨forwarder, started⟩ := Option.isSome_iff_exists.mp started
    by_cases ended : state.inputEnded = true
    · obtain ⟨middle, joined⟩ := joinInput?_of_ended ended
      exact .inr (.inl (run (by simp [proceed, phase, joined])))
    · rcases forward_advances cancelled started ended with turn | ⟨readable, full, batch, sending, remains⟩
      · exact .inr (.inl ⟨.inputRelay, turn⟩)
      · exact .inr (.inr ⟨phase, readable, full, forwarder, batch, started, sending, remains⟩)
  | waiting => exact .inr (.inl ⟨.giveUp, by simp [advance, giveUp, phase, cancelled]⟩)
  | stoppingLate =>
    rw [phase] at orderly
    obtain ⟨middle, stopped⟩ := reapStopped?_of_ended orderly.2
    exact .inr (.inl (run (by simp [proceed, phase, stopped])))
  | concluding status =>
    refine .inr (.inl ?_)
    rcases watch_advances cancelled with turn | absent | ⟨verdict, finished⟩
    · exact ⟨.watch, turn⟩
    · exact run (by simp [proceed, phase, conclude, absent])
    · exact run (by simp [proceed, phase, conclude, finished])
  | returned result => exact .inl ⟨result, rfl⟩

/-! ## All turns -/

/-- So many turns of a session's own tasks, one after the other. -/
inductive Turns (state : State) : Nat → State → Prop where
  | none : Turns state 0 state
  | turn {count : Nat} {middle after : State} (earlier : Turns state count middle) (task : Task)
      (advanced : middle.advance task = some after) : Turns state (count + 1) after

/-- A run of turns of a cancelled session: each takes one off the turns that are left, and none makes or
takes room. -/
theorem Turns.wanes {count : Nat} (turns : Turns state count after) (orderly : state.Orderly)
    (cancelled : state.cancelled = true) :
    after.Orderly ∧ after.cancelled = true ∧ count + after.turnsLeft ≤ state.turnsLeft ∧
      (after.Roomy ↔ state.Roomy) ∧ (state.Roomy ∨ after.server = state.server) := by
  induction turns with
  | none => exact ⟨orderly, cancelled, by omega, Iff.rfl, .inr rfl⟩
  | turn earlier task advanced inductionHypothesis =>
    obtain ⟨orderly', cancelled', fewer, roomy, server⟩ := inductionHypothesis
    have wanes := advance_wanes orderly' cancelled' advanced
    have less := wanes.fewer
    refine ⟨orderly_advance orderly' advanced, wanes.cancelled, by omega, wanes.roomy.trans roomy, ?_⟩
    rcases server with room | same
    · exact .inl room
    · rcases wanes.server with room | same'
      · exact .inl (roomy.mp room)
      · exact .inr (same'.trans same)

/-- Where turns are taken as long as there are any, they come to an end. -/
theorem turns_come_to_rest (orderly : state.Orderly) (cancelled : state.cancelled = true) :
    ∃ count after, Turns state count after ∧ ¬ after.Advances := by
  have from_ (left : Nat) : ∀ {count : Nat} {middle : State}, Turns state count middle →
      middle.turnsLeft = left → ∃ count after, Turns state count after ∧ ¬ after.Advances := by
    induction left using Nat.strongRecOn with
    | ind left inductionHypothesis =>
      intro count middle turns size
      by_cases advances : middle.Advances
      · obtain ⟨task, turn⟩ := advances
        obtain ⟨after, advanced⟩ := Option.isSome_iff_exists.mp turn
        obtain ⟨orderly', cancelled', _⟩ := turns.wanes orderly cancelled
        have fewer := (advance_wanes orderly' cancelled' advanced).fewer
        exact inductionHypothesis after.turnsLeft (by omega) (.turn turns task advanced) rfl
      · exact ⟨count, middle, turns, advances⟩
  exact from_ state.turnsLeft .none rfl

/-- A session that has returned has nothing left to write. -/
theorem roomy_of_returned {result : Except Fault Outcome} (orderly : state.Orderly)
    (returned : state.phase = .returned result) : state.Roomy ∧ state.server.Reaped := by
  unfold Orderly at orderly
  rw [returned] at orderly
  exact ⟨orderly.1.toQuiet.roomy, orderly.2⟩

/-- As long as a message for the server does not fit, its status is not asked for: a relay is at work. -/
theorem unreaped_of_not_roomy (orderly : state.Orderly) (crowded : ¬ state.Roomy) :
    ¬ state.server.Reaped := by
  have ended_unreaped (ended : state.server.Ended) : ¬ state.server.Reaped := by
    obtain ⟨status, ended⟩ := ended
    rintro ⟨status', reaped⟩
    exact absurd (ended.symm.trans reaped) (by simp)
  unfold Orderly at orderly
  cases phase : state.phase <;> rw [phase] at orderly
  case starting => exact orderly.2.2.2
  case opening => exact orderly.2.2
  case draining => exact orderly.2.2
  case drainingErrors => exact orderly.2.2
  case drainingInput => exact orderly.2.2.2
  case waiting => exact orderly.2
  case stopping => exact ended_unreaped orderly.2
  case stoppingLate => exact ended_unreaped orderly.2
  case closing => exact absurd orderly.1.roomy crowded
  case concluding => exact absurd orderly.1.toQuiet.roomy crowded
  case returned => exact absurd orderly.1.toQuiet.roomy crowded

/-- Where turns of a cancelled session lead: if there is room, to more turns or to the end, and else to
more turns or to a standstill, with the server as it was. -/
theorem Turns.outcome {count : Nat} (turns : Turns state count after) (orderly : state.Orderly)
    (cancelled : state.cancelled = true) :
    (state.Roomy →
      after.Advances ∨ (∃ result, after.phase = .returned result) ∧ after.server.Reaped) ∧
    (¬ state.Roomy →
      (after.Advances ∨ after.HeldUp) ∧ after.server = state.server ∧ ¬ after.server.Reaped) := by
  obtain ⟨orderly', cancelled', _, roomy, server⟩ := turns.wanes orderly cancelled
  refine ⟨fun room => ?_, fun crowded => ?_⟩
  · rcases advances_or_heldUp orderly' cancelled' with ⟨result, returned⟩ | advances | held
    · exact .inr ⟨⟨result, returned⟩, (roomy_of_returned orderly' returned).2⟩
    · exact .inl advances
    · exact absurd (roomy.mpr room) held.not_roomy
  · have crowded' : ¬ after.Roomy := fun room => crowded (roomy.mp room)
    refine ⟨?_, server.resolve_left crowded, unreaped_of_not_roomy orderly' crowded'⟩
    rcases advances_or_heldUp orderly' cancelled' with ⟨result, returned⟩ | advances | held
    · exact absurd (roomy_of_returned orderly' returned).1 crowded'
    · exact .inl advances
    · exact .inr held

/-- A cancelled session comes to its end by its own turns exactly if the frames that its relay of messages
has begun to write fit into the pipe to the server, or nobody reads them. Then it does so in whatever order
the turns are taken, and its server has been reaped; else it comes to a standstill, in whatever order, and
its server is what it was. Either takes a bounded number of turns. -/
theorem cancelled_session_returns_iff_roomy {beginning : Beginning} {prepared : Channel.Prepared}
    {disk : Disk} (reachable : Reachable (beginning.state prepared disk) state)
    (cancelled : state.cancelled = true) :
    ((∃ count after result, Turns state count after ∧ after.phase = .returned result) ↔ state.Roomy) ∧
    ∀ count after, Turns state count after → count ≤ state.turnsLeft ∧
      (state.Roomy →
        after.Advances ∨ (∃ result, after.phase = .returned result) ∧ after.server.Reaped) ∧
      (¬ state.Roomy →
        (after.Advances ∨ after.HeldUp) ∧ after.server = state.server ∧ ¬ after.server.Reaped) := by
  have orderly := reachable_orderly reachable
  refine ⟨⟨?_, fun room => ?_⟩, fun count after turns => ⟨?_, turns.outcome orderly cancelled⟩⟩
  · rintro ⟨count, after, result, turns, returned⟩
    obtain ⟨orderly', _, _, roomy, _⟩ := turns.wanes orderly cancelled
    exact roomy.mp (roomy_of_returned orderly' returned).1
  · obtain ⟨count, after, turns, rest⟩ := turns_come_to_rest orderly cancelled
    rcases (turns.outcome orderly cancelled).1 room with advances | ⟨⟨result, returned⟩, _⟩
    · exact absurd advances rest
    · exact ⟨count, after, result, turns, returned⟩
  · obtain ⟨_, _, bound, _⟩ := turns.wanes orderly cancelled
    omega

/-- A session over standard streams whose client sends a message of so many bytes without a meaning. -/
def droning (length : Nat) : Beginning where
  settings := .usual (Bytes.ascii "/bin/server") (Bytes.ascii "/work") .standard
  workspace := {}
  probe := { parent := none, alive := fun _ => true }
  disk := {}
  programFolders := []
  process := 2
  client := { content := Frame.encode (List.replicate length 0x78), capacity := length + 100 }

/-- A session that is cancelled at its start returns. -/
theorem cancelled_at_start_returns :
    ∃ state, Reachable ((droning 0).state .standard {}) state ∧ state.cancelled = true ∧
      ∃ count after result, Turns state count after ∧ after.phase = .returned result := by
  have reachable : Reachable ((droning 0).state .standard {})
      { (droning 0).state .standard {} with outerCancelled := true } :=
    .step .start (.move .cancels rfl)
  have roomy : State.Roomy { (droning 0).state .standard {} with outerCancelled := true } :=
    .inr (Nat.zero_le _)
  exact ⟨_, reachable, rfl, (cancelled_session_returns_iff_roomy reachable rfl).1.mpr roomy⟩

end State

end Session

end LspProxy
