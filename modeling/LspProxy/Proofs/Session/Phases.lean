import LspProxy.Proofs.Session.Turns
import LspProxy.Session.Launch

/-!
# What holds in each phase

The run of a session asks for the status of its server once, on every way to the end, and waits for one
relay after the other. So the phase that it is in says what has become of the server and of the relays
(`Phase.Requires`). No other task and nothing around the session changes the phase, and what they change
can only bring the server and the relays further (`Onward`), which no phase minds; a turn of the run
brings about what its next phase requires. So the requirement holds in every state that a session comes
through (`reachable_orderly`), whatever the order of turns and moves.
-/
namespace LspProxy.Session

namespace Server

/-- It has ended, and its status has not been asked for. -/
def Ended (server : Server) : Prop := ∃ status, server = .ended status

/-- Its status has been asked for. -/
def Reaped (server : Server) : Prop := ∃ status, server = .reaped status

end Server

namespace State

/-- Neither relay between the client and the server is at work: it has not been started, or has ended. -/
structure Quiet (state : State) : Prop where
  output : state.outputRelay = none ∨ state.outputEnded = true
  input : state.inputRelay = none ∨ state.inputEnded = true

/-- The relay of the error output has ended as well. -/
structure Silent (state : State) : Prop extends Quiet state where
  errors : state.errorRelay.isFinished = true

end State

/-- The two streams from the server, and what the client has got of them. -/
structure Streams where
  fromServer : Pipe
  errors : Pipe
  clientOutput : Sink
  clientErrors : Sink

/-- Those of a session. -/
def State.streams (state : State) : Streams where
  fromServer := state.fromServer
  errors := state.errors
  clientOutput := state.clientOutput
  clientErrors := state.clientErrors

/-- What a phase of the run requires of the rest of the session. -/
def Phase.Requires (state : State) : Phase → Prop
  | .starting =>
    state.prepared.isSome = true ∧ state.outputRelay = none ∧ state.inputRelay = none ∧
      ¬ state.server.Reaped
  | .opening => state.outputRelay = none ∧ state.inputRelay = none ∧ ¬ state.server.Reaped
  | .stopping _ => state.Quiet ∧ state.server.Ended
  | .closing _ => state.Quiet ∧ state.server.Reaped
  | .draining =>
    state.outputRelay.isSome = true ∧ state.inputRelay.isSome = true ∧ ¬ state.server.Reaped
  | .drainingErrors =>
    state.outputEnded = true ∧ state.inputRelay.isSome = true ∧ ¬ state.server.Reaped
  | .drainingInput =>
    state.outputEnded = true ∧ state.errorRelay.isFinished = true ∧ state.inputRelay.isSome = true ∧
      ¬ state.server.Reaped
  | .waiting => state.Silent ∧ ¬ state.server.Reaped
  | .stoppingLate => state.Silent ∧ state.server.Ended
  | .concluding _ | .returned _ => state.Silent ∧ state.server.Reaped

/-- The turns that the run still has at most. -/
def Phase.turnsLeft : Phase → Nat
  | .returned _ => 0
  | .concluding _ => 1
  | .closing _ | .stoppingLate => 2
  | .stopping _ | .waiting => 3
  | .drainingInput => 4
  | .drainingErrors => 5
  | .draining => 6
  | .opening => 7
  | .starting => 8

namespace State

variable {state after : State}

/-- The session is as its phase requires it. -/
def Orderly (state : State) : Prop := state.phase.Requires state

/-! ## Everything but the run -/

/-- What happens to a session besides the turns of its run: the phase and what was prepared stay, a
server may end, no relay is started, and one that has ended stays so. -/
structure Onward (before after : State) : Prop where
  phase : after.phase = before.phase
  prepared : after.prepared = before.prepared
  server : after.server = before.server ∨ (before.server = .running ∧ after.server.Ended)
  cancelled : before.cancelled = true → after.cancelled = true
  errorsEnded : before.errorRelay.isFinished = true → after.errorRelay.isFinished = true
  output : after.outputRelay.isSome = before.outputRelay.isSome
  outputEnded : before.outputEnded = true → after.outputEnded = true
  input : after.inputRelay.isSome = before.inputRelay.isSome
  inputEnded : before.inputEnded = true → after.inputEnded = true

/-- A server that has ended or has been asked for its status stays as it is. -/
theorem Onward.ended (onward : Onward state after) (ended : state.server.Ended) :
    after.server.Ended := by
  rcases onward.server with same | ⟨_, ended'⟩
  · rwa [same]
  · exact ended'

theorem Onward.reaped_iff (onward : Onward state after) : after.server.Reaped ↔ state.server.Reaped := by
  rcases onward.server with same | ⟨running, status, ended⟩
  · rw [same]
  · simp [Server.Reaped, running, ended]

theorem Onward.noOutput (onward : Onward state after) (none : state.outputRelay = none) :
    after.outputRelay = .none := by
  simpa [none] using onward.output

theorem Onward.noInput (onward : Onward state after) (none : state.inputRelay = none) :
    after.inputRelay = .none := by
  simpa [none] using onward.input

theorem Onward.quiet (onward : Onward state after) (quiet : state.Quiet) : after.Quiet where
  output := quiet.output.imp onward.noOutput onward.outputEnded
  input := quiet.input.imp onward.noInput onward.inputEnded

theorem Onward.silent (onward : Onward state after) (silent : state.Silent) : after.Silent where
  toQuiet := onward.quiet silent.toQuiet
  errors := onward.errorsEnded silent.errors

/-- What a phase requires is not lost on the way. -/
theorem Onward.requires (onward : Onward state after) {phase : Phase} (required : phase.Requires state) :
    phase.Requires after := by
  have unreaped (before : ¬ state.server.Reaped) : ¬ after.server.Reaped :=
    fun reaped => before (onward.reaped_iff.mp reaped)
  cases phase with
  | starting =>
    obtain ⟨prepared, output, input, server⟩ := required
    exact ⟨onward.prepared ▸ prepared, onward.noOutput output, onward.noInput input, unreaped server⟩
  | opening =>
    obtain ⟨output, input, server⟩ := required
    exact ⟨onward.noOutput output, onward.noInput input, unreaped server⟩
  | stopping setback => exact ⟨onward.quiet required.1, onward.ended required.2⟩
  | closing setback => exact ⟨onward.quiet required.1, onward.reaped_iff.mpr required.2⟩
  | draining =>
    obtain ⟨output, input, server⟩ := required
    exact ⟨onward.output ▸ output, onward.input ▸ input, unreaped server⟩
  | drainingErrors =>
    obtain ⟨output, input, server⟩ := required
    exact ⟨onward.outputEnded output, onward.input ▸ input, unreaped server⟩
  | drainingInput =>
    obtain ⟨output, errors, input, server⟩ := required
    exact ⟨onward.outputEnded output, onward.errorsEnded errors, onward.input ▸ input, unreaped server⟩
  | waiting => exact ⟨onward.silent required.1, unreaped required.2⟩
  | stoppingLate => exact ⟨onward.silent required.1, onward.ended required.2⟩
  | concluding status => exact ⟨onward.silent required.1, onward.reaped_iff.mpr required.2⟩
  | returned result => exact ⟨onward.silent required.1, onward.reaped_iff.mpr required.2⟩

theorem Onward.orderly (onward : Onward state after) (orderly : state.Orderly) : after.Orderly := by
  unfold Orderly
  rw [onward.phase]
  exact onward.requires orderly

theorem onward_copyErrors (turn : state.copyErrors = some after) : Onward state after := by
  obtain ⟨count, relay, errors, clientErrors, running, _, rfl⟩ := copyErrors_cases turn
  exact ⟨rfl, rfl, .inl rfl, id, fun ended => absurd ended (by simp [running, Copying.isFinished]),
    rfl, id, rfl, id⟩

theorem onward_copyOutput (turn : state.copyOutput = some after) : Onward state after := by
  obtain ⟨count, relay, fromServer, clientOutput, running, _, rfl⟩ := copyOutput_cases turn
  have started : state.outputRelay.isSome = true := by rw [running]; rfl
  exact ⟨rfl, rfl, .inl rfl, id, id, started.symm,
    fun ended => absurd ended (by simp [running, State.outputEnded]), rfl, id⟩

theorem onward_forward (turn : state.forward = some after) : Onward state after := by
  obtain ⟨⟨stage, buffer, interceptor, log, totals⟩, started, ⟨reading, read⟩ | ⟨batch, sending, sent⟩⟩ :=
    forward_cases turn
  all_goals have inputs : true = state.inputRelay.isSome := by rw [started]; rfl
  · have active : ¬ state.inputEnded = true := by
      simp only at reading
      simp [State.inputEnded, started, reading]
    obtain ⟨_, rfl⟩ | ⟨_, client, events, next, rfl⟩ := readMessage_cases read
    · exact ⟨rfl, rfl, .inl rfl, id, id, rfl, id, inputs, fun ended => absurd ended active⟩
    · exact ⟨rfl, rfl, .inl rfl, id, id, rfl, id, inputs, fun ended => absurd ended active⟩
  · have active : ¬ state.inputEnded = true := by
      simp only at sending
      simp [State.inputEnded, started, sending]
    obtain ⟨toServer, disk, events, next, rfl, _⟩ := sendBatch_cases sent
    exact ⟨rfl, rfl, .inl rfl, id, id, rfl, id, inputs, fun ended => absurd ended active⟩

theorem onward_watch (turn : state.watch = some after) : Onward state after := by
  obtain ⟨events, monitor, ownCancelled, rfl, stays, _⟩ := watch_cases turn
  refine ⟨rfl, rfl, .inl rfl, fun cancelled => ?_, id, rfl, id, rfl, id⟩
  simp only [State.cancelled, Bool.or_eq_true] at cancelled ⊢
  exact cancelled.imp id stays

theorem onward_wake (turn : state.wake = some after) : Onward state after := by
  obtain ⟨monitor, rfl, _⟩ := wake_cases turn
  exact ⟨rfl, rfl, .inl rfl, id, id, rfl, id, rfl, id⟩

theorem onward_meet {move : Move} (met : state.meet move = some after) : Onward state after := by
  cases move with
  | serverEnds status =>
    simp only [meet] at met
    split at met
    · rename_i running
      obtain rfl := Option.some.inj met
      exact ⟨rfl, rfl, .inr ⟨running, status, rfl⟩, id, id, rfl, id, rfl, id⟩
    · exact absurd met (by simp)
  | serverReads count | connects connection =>
    simp only [meet] at met
    split at met
    · obtain rfl := Option.some.inj met
      exact ⟨rfl, rfl, .inl rfl, id, id, rfl, id, rfl, id⟩
    · exact absurd met (by simp)
  | serverWrites bytes | serverComplains bytes | clientWrites bytes =>
    obtain ⟨pipe, _, filled⟩ := Option.bind_eq_some_iff.mp met
    obtain rfl := Option.some.inj filled
    exact ⟨rfl, rfl, .inl rfl, id, id, rfl, id, rfl, id⟩
  | cancels =>
    obtain rfl := Option.some.inj met
    exact ⟨rfl, rfl, .inl rfl, fun _ => rfl, id, rfl, id, rfl, id⟩
  | serverStopsReading | serverStopsWriting failure | serverFallsSilent | clientStopsWriting
  | timePasses time | filesChange disk =>
    obtain rfl := Option.some.inj met
    exact ⟨rfl, rfl, .inl rfl, id, id, rfl, id, rfl, id⟩

/-! ## The run -/

/-- What most parts of the run leave alone: the relays, the watch and the streams. -/
structure Carried (before after : State) : Prop where
  toServer : after.toServer = before.toServer
  streams : after.streams = before.streams
  cancelled : before.cancelled = true → after.cancelled = true
  errorRelay : after.errorRelay = before.errorRelay
  outputRelay : after.outputRelay = before.outputRelay
  inputRelay : after.inputRelay = before.inputRelay
  monitor : after.monitor = before.monitor

theorem Carried.trans {middle : State} (first : Carried state middle) (second : Carried middle after) :
    Carried state after where
  toServer := second.toServer.trans first.toServer
  streams := second.streams.trans first.streams
  cancelled := second.cancelled ∘ first.cancelled
  errorRelay := second.errorRelay.trans first.errorRelay
  outputRelay := second.outputRelay.trans first.outputRelay
  inputRelay := second.inputRelay.trans first.inputRelay
  monitor := second.monitor.trans first.monitor

theorem carried_add (state : State) (events : List Log.Event) : Carried state (state.add events) :=
  ⟨rfl, rfl, id, rfl, rfl, rfl, rfl⟩

theorem carried_cancel (state : State) : Carried state state.cancel :=
  ⟨rfl, rfl, fun _ => by simp [cancel, cancelled], rfl, rfl, rfl, rfl⟩

theorem carried_kill (state : State) : Carried state state.kill := by
  unfold kill
  split <;> exact ⟨rfl, rfl, id, rfl, rfl, rfl, rfl⟩

theorem carried_release (state : State) : Carried state state.release := by
  unfold release
  split <;> exact ⟨rfl, rfl, id, rfl, rfl, rfl, rfl⟩

/-- Giving up what was prepared does nothing to the server. -/
theorem release_server (state : State) : state.release.server = state.server := by
  unfold release
  split <;> rfl

/-- A server that is stopped has ended, unless its status has been asked for. -/
theorem kill_ended (unreaped : ¬ state.server.Reaped) : state.kill.server.Ended := by
  unfold kill
  cases server : state.server with
  | running => exact ⟨_, rfl⟩
  | ended status => exact ⟨status, server⟩
  | reaped status => exact absurd ⟨status, server⟩ unreaped

/-- The status of a server that has ended can be asked for, and then it has been. -/
theorem reap?_cases {status : ExitStatus} (reaped : state.reap? = some (status, after)) :
    after.server.Reaped ∧ Carried state after := by
  unfold reap? at reaped
  split at reaped
  · simp only [Option.some.injEq, Prod.mk.injEq] at reaped
    obtain ⟨rfl, rfl⟩ := reaped
    exact ⟨⟨_, rfl⟩, rfl, rfl, id, rfl, rfl, rfl, rfl⟩
  · exact absurd reaped (by simp)

theorem reapStopped?_cases (reaped : state.reapStopped? = some after) :
    after.server.Reaped ∧ Carried state after := by
  obtain ⟨⟨status, middle⟩, found, reported⟩ := Option.bind_eq_some_iff.mp reaped
  obtain ⟨server, carried⟩ := reap?_cases found
  obtain rfl := Option.some.inj reported
  exact ⟨server, carried.trans (carried_add middle _)⟩

/-- The end of a relay is reported. -/
theorem reportRelay_eq (state : State) (relay : String) (wording : Failure → String)
    (result : Except Failure Relay.Totals) :
    ∃ events, state.reportRelay relay wording result = state.add events := by
  cases result with
  | ok totals => exact ⟨_, rfl⟩
  | error failure => exact ⟨_, rfl⟩

theorem joinErrors?_cases (joined : state.joinErrors? = some after) :
    state.errorRelay.isFinished = true ∧ ∃ events, after = state.add events := by
  unfold joinErrors? at joined
  split at joined
  · exact absurd joined (by simp)
  · rename_i result finished
    obtain ⟨events, reported⟩ := reportRelay_eq state "server error" Failure.message result
    exact ⟨by rw [finished]; rfl, events, by rw [← Option.some.inj joined, reported]⟩

theorem joinOutput?_cases (joined : state.joinOutput? = some after) :
    state.outputEnded = true ∧ ∃ events, after = state.add events := by
  unfold joinOutput? at joined
  split at joined
  · rename_i result finished
    obtain ⟨events, reported⟩ := reportRelay_eq state "server output" Failure.message result
    exact ⟨by simp [outputEnded, finished], events, by rw [← Option.some.inj joined, reported]⟩
  · exact absurd joined (by simp)

theorem joinInput?_cases (joined : state.joinInput? = some after) :
    state.inputEnded = true ∧ ∃ events, after = state.add events := by
  unfold joinInput? at joined
  split at joined
  · rename_i result _ _ _ _ finished
    obtain ⟨events, reported⟩ := reportRelay_eq state "client input" Frame.failureMessage result
    exact ⟨by simp [inputEnded, finished], events, by rw [← Option.some.inj joined, reported]⟩
  · exact absurd joined (by simp)

theorem Carried.quiet (carried : Carried state after) (quiet : state.Quiet) : after.Quiet := by
  obtain ⟨output, input⟩ := quiet
  unfold outputEnded at output
  unfold inputEnded at input
  rw [← carried.outputRelay] at output
  rw [← carried.inputRelay] at input
  exact ⟨output, input⟩

theorem Carried.silent (carried : Carried state after) (silent : state.Silent) : after.Silent where
  toQuiet := carried.quiet silent.toQuiet
  errors := carried.errorRelay ▸ silent.errors

/-- What a turn of the run does: it brings about what its next phase requires, comes nearer to the end,
and changes neither the streams nor the relays nor the watch, but for relays that it starts. The server is left alone as
long as a relay between it and the client is at work. -/
structure Proceeds (before after : State) : Prop where
  orderly : after.Orderly
  fewer : after.phase.turnsLeft < before.phase.turnsLeft
  toServer : after.toServer = before.toServer
  streams : after.streams = before.streams
  cancelled : before.cancelled = true → after.cancelled = true
  errorRelay : after.errorRelay = before.errorRelay
  monitor : after.monitor = before.monitor
  outputRelay : after.outputRelay = before.outputRelay ∨
    (before.outputRelay = none ∧ after.outputRelay = some (.running 0))
  inputRelay : after.inputRelay = before.inputRelay ∨
    (before.inputRelay = none ∧ ∃ forwarder, after.inputRelay = some forwarder ∧
      forwarder.stage = .reading)
  server : before.Quiet ∨ after.server = before.server

/-- No phase requires anything of itself. -/
theorem requires_phase {phase next : Phase} (required : phase.Requires state) :
    phase.Requires { state with phase := next } := by
  have carried : Carried state { state with phase := next } := ⟨rfl, rfl, id, rfl, rfl, rfl, rfl⟩
  cases phase with
  | starting | opening | draining | drainingErrors | drainingInput => exact required
  | stopping setback => exact ⟨carried.quiet required.1, required.2⟩
  | closing setback => exact ⟨carried.quiet required.1, required.2⟩
  | waiting => exact ⟨carried.silent required.1, required.2⟩
  | stoppingLate => exact ⟨carried.silent required.1, required.2⟩
  | concluding status => exact ⟨carried.silent required.1, required.2⟩
  | returned result => exact ⟨carried.silent required.1, required.2⟩

/-- The run enters a phase in a state that is as the phase requires. -/
theorem Proceeds.enter (phase : Phase) {middle : State} (carried : Carried state middle)
    (fewer : phase.turnsLeft < state.phase.turnsLeft) (required : phase.Requires middle)
    (server : state.Quiet ∨ middle.server = state.server) :
    Proceeds state { middle with phase } where
  orderly := requires_phase required
  fewer := fewer
  toServer := carried.toServer
  streams := carried.streams
  cancelled := carried.cancelled
  errorRelay := carried.errorRelay
  monitor := carried.monitor
  outputRelay := .inl carried.outputRelay
  inputRelay := .inl carried.inputRelay
  server := server

/-- With everything at its end the run cancels the session, and has only its watch to wait for. -/
theorem Proceeds.ended {middle : State} (carried : Carried state middle) (silent : state.Silent)
    (reaped : middle.server.Reaped) (early : 1 < state.phase.turnsLeft) (status : Option ExitStatus) :
    Proceeds state { middle.cancel with phase := .concluding status } :=
  have cancelled := carried.trans (carried_cancel middle)
  .enter (.concluding status) cancelled early ⟨cancelled.silent silent, reaped⟩ (.inl silent.toQuiet)

theorem leaveStart_proceeds (starting : state.phase = .starting)
    (required : Phase.starting.Requires state) (turn : state.leaveStart = some after) :
    Proceeds state after := by
  obtain ⟨_, output, input, unreaped⟩ := required
  have quiet : state.Quiet := ⟨.inl output, .inl input⟩
  obtain ⟨listener, _, turn⟩ := Option.bind_eq_some_iff.mp turn
  split at turn
  · rename_i attempt _
    have carried := (carried_add state attempt.events).trans (carried_release _)
    have server : ¬ (state.add attempt.events).release.server.Reaped := by
      rw [release_server]
      exact unreaped
    split at turn
    · obtain rfl := Option.some.inj turn
      refine .enter .opening carried (by rw [starting]; decide) ⟨?_, ?_, server⟩ (.inl quiet)
      · rw [carried.outputRelay, output]
      · rw [carried.inputRelay, input]
    · rename_i fault _
      obtain rfl := Option.some.inj turn
      have killed := carried.trans (carried_kill _)
      exact .enter (.stopping (.fault fault)) killed (by rw [starting]; simp [Phase.turnsLeft])
        ⟨killed.quiet quiet, kill_ended server⟩ (.inl quiet)
  · have carried := carried_release state
    split at turn
    · rename_i status middle found
      obtain ⟨reaped, later⟩ := reap?_cases found
      obtain rfl := Option.some.inj turn
      have noticed (events : List Log.Event) := (carried.trans later).trans (carried_add middle events)
      exact .enter (.closing (.exited status)) (noticed _)
        (by rw [starting]; simp [Phase.turnsLeft]) ⟨(noticed _).quiet quiet, reaped⟩ (.inl quiet)
    · split at turn
      · obtain rfl := Option.some.inj turn
        have killed := carried.trans (carried_kill _)
        have server : ¬ state.release.server.Reaped := by
          rw [release_server]
          exact unreaped
        exact .enter (.stopping .cancelled) killed (by rw [starting]; simp [Phase.turnsLeft])
          ⟨killed.quiet quiet, kill_ended server⟩ (.inl quiet)
      · exact absurd turn (by simp)

theorem conclude_proceeds {status : Option ExitStatus} (concluding : state.phase = .concluding status)
    (required : (Phase.concluding status).Requires state) (turn : state.conclude status = some after) :
    Proceeds state after := by
  obtain ⟨silent, reaped⟩ := required
  have concluded (events : List Log.Event) (result : Except Fault Outcome) :
      Proceeds state { state.add events with phase := .returned result } :=
    have carried := carried_add state events
    .enter _ carried (by rw [concluding]; simp [Phase.turnsLeft]) ⟨carried.silent silent, reaped⟩
      (.inr rfl)
  unfold conclude at turn
  dsimp only at turn
  split at turn
  · obtain rfl := Option.some.inj turn
    exact concluded _ _
  · obtain rfl := Option.some.inj turn
    exact concluded _ _
  · exact absurd turn (by simp)

/-- Every turn of the run proceeds. -/
theorem proceed_proceeds (orderly : state.Orderly) (turn : state.proceed = some after) :
    Proceeds state after := by
  unfold Orderly at orderly
  unfold proceed at turn
  cases phase : state.phase with
  | starting =>
    simp only [phase] at turn orderly
    exact leaveStart_proceeds phase orderly turn
  | stopping setback =>
    simp only [phase] at turn orderly
    obtain ⟨quiet, _⟩ := orderly
    obtain ⟨middle, stopped, turn⟩ := Option.bind_eq_some_iff.mp turn
    obtain ⟨reaped, carried⟩ := reapStopped?_cases stopped
    obtain rfl := Option.some.inj turn
    have fewer : (Phase.closing setback).turnsLeft < state.phase.turnsLeft := by
      rw [phase]
      simp [Phase.turnsLeft]
    cases setback with
    | fault fault =>
      have cancelled := carried.trans (carried_cancel middle)
      exact .enter _ cancelled fewer ⟨cancelled.quiet quiet, reaped⟩ (.inl quiet)
    | exited status => exact .enter _ carried fewer ⟨carried.quiet quiet, reaped⟩ (.inl quiet)
    | cancelled => exact .enter _ carried fewer ⟨carried.quiet quiet, reaped⟩ (.inl quiet)
  | closing setback =>
    simp only [phase] at turn orderly
    obtain ⟨quiet, reaped⟩ := orderly
    obtain ⟨middle, joined, turn⟩ := Option.bind_eq_some_iff.mp turn
    obtain ⟨errors, events, rfl⟩ := joinErrors?_cases joined
    have silent : state.Silent := ⟨quiet, errors⟩
    have carried := carried_add state events
    have early : 1 < state.phase.turnsLeft := by
      rw [phase]
      simp [Phase.turnsLeft]
    cases setback with
    | fault fault =>
      obtain rfl := Option.some.inj turn
      exact .enter _ carried (by rw [phase]; simp [Phase.turnsLeft])
        ⟨carried.silent silent, reaped⟩ (.inl quiet)
    | exited status =>
      obtain rfl := Option.some.inj turn
      exact .ended carried silent reaped early _
    | cancelled =>
      obtain rfl := Option.some.inj turn
      exact .enter (.concluding _) carried early ⟨carried.silent silent, reaped⟩ (.inl quiet)
  | opening =>
    simp only [phase] at turn orderly
    obtain ⟨output, input, unreaped⟩ := orderly
    obtain rfl := Option.some.inj turn
    exact ⟨⟨rfl, rfl, unreaped⟩, by rw [phase]; simp [Phase.turnsLeft], rfl, rfl, id, rfl, rfl,
      .inr ⟨output, rfl⟩, .inr ⟨input, _, rfl, rfl⟩, .inr rfl⟩
  | draining =>
    simp only [phase] at turn orderly
    obtain ⟨_, input, unreaped⟩ := orderly
    obtain ⟨middle, joined, turn⟩ := Option.bind_eq_some_iff.mp turn
    obtain ⟨ended, events, rfl⟩ := joinOutput?_cases joined
    obtain rfl := Option.some.inj turn
    exact .enter .drainingErrors (carried_add state events) (by rw [phase]; decide)
      ⟨ended, input, unreaped⟩ (.inr rfl)
  | drainingErrors =>
    simp only [phase] at turn orderly
    obtain ⟨output, input, unreaped⟩ := orderly
    obtain ⟨middle, joined, turn⟩ := Option.bind_eq_some_iff.mp turn
    obtain ⟨ended, events, rfl⟩ := joinErrors?_cases joined
    obtain rfl := Option.some.inj turn
    exact ⟨⟨output, ended, input, unreaped⟩, by rw [phase]; simp [Phase.turnsLeft], rfl, rfl, id, rfl, rfl,
      .inl rfl, .inl rfl, .inr rfl⟩
  | drainingInput =>
    simp only [phase] at turn orderly
    obtain ⟨output, errors, _, unreaped⟩ := orderly
    obtain ⟨middle, joined, turn⟩ := Option.bind_eq_some_iff.mp turn
    obtain ⟨input, events, rfl⟩ := joinInput?_cases joined
    obtain rfl := Option.some.inj turn
    have carried := carried_add state events
    have silent : state.Silent := ⟨⟨.inr output, .inr input⟩, errors⟩
    exact .enter .waiting carried (by rw [phase]; decide)
      ⟨carried.silent silent, unreaped⟩ (.inr rfl)
  | waiting =>
    simp only [phase] at turn orderly
    obtain ⟨⟨status, middle⟩, found, turn⟩ := Option.bind_eq_some_iff.mp turn
    obtain ⟨reaped, carried⟩ := reap?_cases found
    obtain rfl := Option.some.inj turn
    exact .ended carried orderly.1 reaped (by rw [phase]; decide) _
  | stoppingLate =>
    simp only [phase] at turn orderly
    obtain ⟨middle, stopped, turn⟩ := Option.bind_eq_some_iff.mp turn
    obtain ⟨reaped, carried⟩ := reapStopped?_cases stopped
    obtain rfl := Option.some.inj turn
    exact .ended carried orderly.1 reaped (by rw [phase]; decide) _
  | concluding status =>
    simp only [phase] at turn orderly
    exact conclude_proceeds phase orderly turn
  | returned result =>
    simp only [phase] at turn
    exact absurd turn (by simp)

/-- To give up waiting for the server is to stop it. -/
theorem giveUp_proceeds (orderly : state.Orderly) (turn : state.giveUp = some after) :
    Proceeds state after := by
  unfold giveUp at turn
  split at turn
  · rename_i waiting
    unfold Orderly at orderly
    rw [waiting] at orderly
    obtain ⟨silent, unreaped⟩ := orderly
    split at turn
    · obtain rfl := Option.some.inj turn
      have carried := carried_kill state
      exact .enter .stoppingLate carried (by rw [waiting]; decide)
        ⟨carried.silent silent, kill_ended unreaped⟩ (.inl silent.toQuiet)
    · exact absurd turn (by simp)
  · exact absurd turn (by simp)

/-! ## All steps -/

theorem orderly_advance {task : Task} (orderly : state.Orderly)
    (turn : state.advance task = some after) : after.Orderly := by
  cases task with
  | run => exact (proceed_proceeds orderly turn).orderly
  | giveUp => exact (giveUp_proceeds orderly turn).orderly
  | errorRelay => exact (onward_copyErrors turn).orderly orderly
  | outputRelay => exact (onward_copyOutput turn).orderly orderly
  | inputRelay => exact (onward_forward turn).orderly orderly
  | watch => exact (onward_watch turn).orderly orderly
  | wake => exact (onward_wake turn).orderly orderly

theorem orderly_step (orderly : state.Orderly) (step : Step state after) : after.Orderly := by
  cases step with
  | turn task advanced => exact orderly_advance orderly advanced
  | move move met => exact (onward_meet met).orderly orderly

/-- A session is as its phase requires it in every state that it comes through. -/
theorem reachable_orderly {beginning : Beginning} {prepared : Channel.Prepared} {disk : Disk}
    (reachable : Reachable (beginning.state prepared disk) state) : state.Orderly := by
  induction reachable with
  | start => exact ⟨rfl, rfl, rfl, by simp [Server.Reaped, Beginning.state]⟩
  | step _ step inductionHypothesis => exact orderly_step inductionHypothesis step

end State

end LspProxy.Session
