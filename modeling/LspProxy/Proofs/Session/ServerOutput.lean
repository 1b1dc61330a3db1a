import LspProxy.Proofs.Relay.Copying
import LspProxy.Proofs.Session.Cleanup
import LspProxy.Proofs.Session.Course

/-!
# What the server has written reaches the client

A server that ends by itself may leave output behind: in the pipes, and in the hands of the relays. The run
does not return before both relays have come to the end of their streams, and it cancels nothing before
that; so what the server has written to its streams, at any time and in any order, the client has got in
full when the run returns (`server_output_delivered`).

What carries this is said of one stream (`Copying.Keeps`): as long as its copy is at work, what the client
has got and what lies in the pipe are together all that was written. A copy that ends by itself has found
the end of the stream behind an empty pipe, and nobody writes to it any more. Only a cancellation makes a
copy end before, and the phases of the run say that there has been none (`Phase.Uncut`).
-/
namespace LspProxy.Session

open State (fill?)

/-! ## One stream -/

/-- What the client has got of a stream and what lies in its pipe is all that was written, in order. -/
structure Flows (given said : Bytes) (pipe : Pipe) (sink : Sink) : Prop where
  bytes : sink.accepted ++ pipe.content = given ++ said
  /-- Only a writer that has gone leaves a failure behind. -/
  broken : pipe.broken ≠ none → pipe.writable = false

/-- The client has got all that was written, and no more can be written. -/
structure Delivered (given said : Bytes) (pipe : Pipe) (sink : Sink) : Prop where
  bytes : sink.accepted = given ++ said
  closed : pipe.writable = false ∨ pipe.readable = false

/-- What is known of a stream by how far its copy is. -/
def Copying.Keeps (given said : Bytes) (pipe : Pipe) (sink : Sink) : Copying → Prop
  | .running _ => Flows given said pipe sink
  | .finished _ => Delivered given said pipe sink

/-- A copy that reads from the pipe passes on something that the sink refuses. -/
def Refuses (pipe : Pipe) (sink : Sink) : Prop :=
  ∃ bytes rest failure after, pipe.fetch Relay.portion = (.data bytes, rest) ∧
    Relay.pass sink bytes = (.error failure, after)

/-- A read takes what it finds off the front of the content. Behind it, it finds the failure that a writer
has left, once, and the end if nobody writes any more. -/
theorem fetch_finds (pipe : Pipe) (limit : Nat) :
    match pipe.fetch limit with
    | (.nothing, _) => True
    | (.data bytes, after) =>
      bytes ++ after.content = pipe.content ∧ after = { pipe with content := after.content }
    | (.failed failure, after) =>
      pipe.content = [] ∧ pipe.broken = some failure ∧ after = { pipe with broken := none }
    | (.ended, after) => pipe.content = [] ∧ pipe.writable = false ∧ after = pipe := by
  unfold Pipe.fetch
  cases content : pipe.content with
  | cons first others => exact ⟨List.take_append_drop _ _, rfl⟩
  | nil =>
    cases broken : pipe.broken with
    | some failure => exact ⟨rfl, rfl, rfl⟩
    | none =>
      cases writable : pipe.writable with
      | true => trivial
      | false => exact ⟨rfl, rfl, rfl⟩

section

variable {given said : Bytes} {relay next : Copying} {pipe pipe' : Pipe} {sink sink' : Sink}

theorem Copying.Keeps.delivered (keeps : relay.Keeps given said pipe sink) (finished : relay.isFinished = true) :
    Delivered given said pipe sink := by
  cases relay with
  | running count => exact absurd finished (by simp [isFinished])
  | finished result => exact keeps

/-- A copy that is not cancelled keeps what it reads. -/
theorem Copying.Keeps.advance (keeps : relay.Keeps given said pipe sink) (accepts : ¬ Refuses pipe sink)
    (turn : relay.advance false pipe sink = some (next, pipe', sink')) : next.Keeps given said pipe' sink' := by
  cases relay with
  | finished result => exact absurd turn (by simp [Copying.advance])
  | running count =>
    obtain ⟨whole, broken⟩ := keeps
    have finds := fetch_finds pipe Relay.portion
    simp only [Copying.advance, Bool.false_eq_true, if_false] at turn
    rcases found : pipe.fetch Relay.portion with ⟨nothing | bytes | failure | ended, rest⟩
    · rw [found] at turn
      exact absurd turn (by simp)
    · rw [found] at turn finds
      obtain ⟨content, same⟩ := finds
      rcases passed : Relay.pass sink bytes with ⟨failure | _, after⟩
      · exact absurd ⟨bytes, rest, failure, after, found, passed⟩ accepts
      · simp only [passed, Option.some.injEq, Prod.mk.injEq] at turn
        obtain ⟨rfl, rfl, rfl⟩ := turn
        obtain ⟨taken, _, accepted, complete⟩ := sink.deliver_accepted [bytes]
        rw [← Relay.pass_eq_deliver, passed] at accepted complete
        rw [complete rfl, List.flatten_singleton] at accepted
        refine ⟨?_, ?_⟩
        · rw [accepted, List.append_assoc, content, whole]
        · rw [same]
          exact broken
    · rw [found] at turn finds
      obtain ⟨empty, left, rfl⟩ := finds
      have closed := broken (by rw [left]; exact Option.some_ne_none failure)
      rw [empty, List.append_nil] at whole
      simp only [Option.some.injEq, Prod.mk.injEq] at turn
      obtain ⟨rfl, rfl, rfl⟩ := turn
      split
      · refine ⟨?_, fun none => absurd rfl none⟩
        rw [← whole, show ({ pipe with broken := none } : Pipe).content = [] from empty, List.append_nil]
      · exact ⟨whole, Or.inl closed⟩
    · rw [found] at turn finds
      obtain ⟨empty, closed, rfl⟩ := finds
      rw [empty, List.append_nil] at whole
      simp only [Option.some.injEq, Prod.mk.injEq] at turn
      obtain ⟨rfl, rfl, rfl⟩ := turn
      exact ⟨whole, Or.inl closed⟩

/-- What is written while it can be written flows, and behind the end nothing can be written. -/
theorem Copying.Keeps.fill {bytes : Bytes} (keeps : relay.Keeps given said pipe sink)
    (filled : fill? pipe bytes = some pipe') : relay.Keeps given (said ++ bytes) pipe' sink := by
  unfold fill? at filled
  split at filled
  · rename_i able
    obtain rfl := Option.some.inj filled
    cases relay with
    | running count =>
      refine ⟨?_, keeps.broken⟩
      change sink.accepted ++ (pipe.content ++ bytes) = _
      rw [← List.append_assoc, keeps.bytes, List.append_assoc]
    | finished result =>
      rcases keeps.closed with closed | closed
      · exact absurd able.1 (by simp [closed])
      · exact absurd able.2.1 (by simp [closed])
  · exact absurd filled (by simp)

/-- When nobody writes any more, what was written is still there. -/
theorem Copying.Keeps.hangUp (keeps : relay.Keeps given said pipe sink) (failure : Option Failure) :
    relay.Keeps given said { pipe.hangUp with broken := failure } sink := by
  cases relay with
  | running count => exact ⟨keeps.bytes, fun _ => rfl⟩
  | finished result => exact ⟨keeps.bytes, Or.inl rfl⟩

/-- Nothing is lost with a pipe that is given up after its copy. -/
theorem Copying.Keeps.abandon (keeps : relay.Keeps given said pipe sink) (finished : relay.isFinished = true) :
    relay.Keeps given said pipe.abandon sink := by
  cases relay with
  | running count => exact absurd finished (by simp [isFinished])
  | finished result => exact ⟨keeps.bytes, Or.inr rfl⟩

end

/-! ## Both streams -/

/-- What the server writes to its error output in what happens. -/
def Happening.complaint : Happening → Bytes
  | .move (.serverComplains bytes) => bytes
  | _ => []

/-- What it writes to its output. -/
def Happening.output : Happening → Bytes
  | .move (.serverWrites bytes) => bytes
  | _ => []

/-- All that was said in what has happened, in the order in which it was. -/
def told (part : Happening → Bytes) (past : List Moment) : Bytes :=
  past.reverse.flatMap fun moment => part moment.happening

theorem told_cons (part : Happening → Bytes) (moment : Moment) (past : List Moment) :
    told part (moment :: past) = told part past ++ part moment.happening := by
  simp [told]

theorem told_append (part : Happening → Bytes) (later past : List Moment) :
    told part (later ++ past) = told part past ++ told part later := by
  simp [told]

/-- A relay writes to the client in this moment, and the client's end refuses. -/
def Moment.ClientRefuses (moment : Moment) : Prop :=
  moment.before.cancelled = false ∧
    (moment.happening = .turn .errorRelay ∧ Refuses moment.before.errors moment.before.clientErrors ∨
      moment.happening = .turn .outputRelay ∧ Refuses moment.before.fromServer moment.before.clientOutput)

/-- The copy of the server's output. One that has not started has passed on nothing. -/
def State.outputCopy (state : State) : Copying := state.outputRelay.getD (.running 0)

/-- The client has got everything that has left the pipes, where the server has written so much to its error
output and to its output. -/
structure Keeping (beginning : Beginning) (complained written : Bytes) (state : State) : Prop where
  errors : state.errorRelay.Keeps beginning.clientErrors.accepted complained state.errors state.clientErrors
  output : state.outputCopy.Keeps beginning.clientOutput.accepted written state.fromServer state.clientOutput

namespace State

variable {beginning : Beginning} {complained written : Bytes} {state after : State}

/-- The streams and their copies are all that matters. -/
theorem keeping_congr (keeping : Keeping beginning complained written state)
    (streams : after.streams = state.streams) (errors : after.errorRelay = state.errorRelay)
    (output : after.outputCopy = state.outputCopy) : Keeping beginning complained written after := by
  have fromServer : after.fromServer = state.fromServer := congrArg Streams.fromServer streams
  have errorPipe : after.errors = state.errors := congrArg Streams.errors streams
  have clientOutput : after.clientOutput = state.clientOutput := congrArg Streams.clientOutput streams
  have clientErrors : after.clientErrors = state.clientErrors := congrArg Streams.clientErrors streams
  constructor
  · rw [errors, errorPipe, clientErrors]
    exact keeping.errors
  · rw [output, fromServer, clientOutput]
    exact keeping.output

theorem outputCopy_finished (ended : state.outputEnded = true) : state.outputCopy.isFinished = true := by
  unfold outputEnded at ended
  split at ended
  · rename_i result started
    rw [outputCopy, started]
    rfl
  · exact absurd ended (by simp)

/-- The streams that nobody uses any more are closed behind their copies. -/
theorem keeping_closeStreams (keeping : Keeping beginning complained written state) :
    Keeping beginning complained written state.closeStreams := by
  refine ⟨keeping.errors, ?_⟩
  by_cases done : state.outputEnded = true ∧
      (state.settings.endpoint = .standard ∨ state.inputEnded = true)
  · have given : state.closeStreams.fromServer = state.fromServer.abandon := by
      unfold closeStreams
      exact if_pos done
    rw [given]
    exact keeping.output.abandon (outputCopy_finished done.1)
  · have same : state.closeStreams.fromServer = state.fromServer := by
      unfold closeStreams
      exact if_neg done
    rw [same]
    exact keeping.output

/-! ### Turns -/

/-- What a turn of the relay of the error output does. -/
theorem copyErrors_advance (turn : state.copyErrors = some after) :
    ∃ relay errors clientErrors,
      state.errorRelay.advance state.cancelled state.errors state.clientErrors =
        some (relay, errors, clientErrors) ∧
      after = { state with
        errorRelay := relay
        errors := if relay.isFinished then errors.abandon else errors
        clientErrors } := by
  obtain ⟨⟨relay, errors, clientErrors⟩, advanced, moved⟩ := Option.bind_eq_some_iff.mp turn
  refine ⟨relay, errors, clientErrors, advanced, (Option.some.inj moved).symm.trans ?_⟩
  cases relay <;> rfl

/-- What a turn of the relay of the output does. -/
theorem copyOutput_advance (turn : state.copyOutput = some after) :
    ∃ relay fromServer clientOutput,
      state.outputCopy.advance state.cancelled state.fromServer state.clientOutput =
        some (relay, fromServer, clientOutput) ∧
      state.outputEnded = false ∧ state.outputRelay.isSome = true ∧
      after = closeStreams { state with outputRelay := some relay, fromServer, clientOutput } := by
  obtain ⟨started, running, turn⟩ := Option.bind_eq_some_iff.mp turn
  obtain ⟨⟨relay, fromServer, clientOutput⟩, advanced, moved⟩ := Option.bind_eq_some_iff.mp turn
  obtain ⟨⟨count, rfl⟩, _⟩ := Copying.advance_cases advanced
  refine ⟨relay, fromServer, clientOutput, ?_, ?_, ?_, (Option.some.inj moved).symm⟩
  · rw [outputCopy, running]
    exact advanced
  · rw [outputEnded, running]
  · rw [running]
    rfl

/-- No copy of a silent session is at work. -/
theorem uncancelled_of_running (clear : state.cancelled = false ∨ state.Silent)
    (running : state.errorRelay.isFinished = false ∨
      (state.outputRelay.isSome = true ∧ state.outputEnded = false)) : state.cancelled = false := by
  rcases clear with uncancelled | silent
  · exact uncancelled
  · rcases running with errors | ⟨started, output⟩
    · exact absurd silent.errors (by simp [errors])
    · rcases silent.output with none | ended
      · exact absurd started (by simp [none])
      · exact absurd ended (by simp [output])

/-- A turn of the relay of the error output. -/
theorem keeping_copyErrors (keeping : Keeping beginning complained written state)
    (clear : state.cancelled = false ∨ state.Silent)
    (accepts : ¬ Moment.ClientRefuses ⟨state, .turn .errorRelay, after⟩)
    (turn : state.copyErrors = some after) : Keeping beginning complained written after := by
  obtain ⟨relay, errors, clientErrors, advanced, rfl⟩ := copyErrors_advance turn
  obtain ⟨⟨count, running⟩, _⟩ := Copying.advance_cases advanced
  have uncancelled := uncancelled_of_running clear (Or.inl (by rw [running]; rfl))
  have takes : ¬ Refuses state.errors state.clientErrors :=
    fun refuses => accepts ⟨uncancelled, Or.inl ⟨rfl, refuses⟩⟩
  rw [uncancelled] at advanced
  have kept := keeping.errors.advance takes advanced
  refine ⟨?_, keeping.output⟩
  change relay.Keeps _ _ (if relay.isFinished then errors.abandon else errors) clientErrors
  split
  · rename_i finished
    exact kept.abandon finished
  · exact kept

/-- A turn of the relay of the output. -/
theorem keeping_copyOutput (keeping : Keeping beginning complained written state)
    (clear : state.cancelled = false ∨ state.Silent)
    (accepts : ¬ Moment.ClientRefuses ⟨state, .turn .outputRelay, after⟩)
    (turn : state.copyOutput = some after) : Keeping beginning complained written after := by
  obtain ⟨relay, fromServer, clientOutput, advanced, active, started, rfl⟩ := copyOutput_advance turn
  have uncancelled := uncancelled_of_running clear (Or.inr ⟨started, active⟩)
  have takes : ¬ Refuses state.fromServer state.clientOutput :=
    fun refuses => accepts ⟨uncancelled, Or.inr ⟨rfl, refuses⟩⟩
  rw [uncancelled] at advanced
  have kept := keeping.output.advance takes advanced
  exact keeping_closeStreams ⟨keeping.errors, kept⟩

/-- A turn of the run: it leaves the streams and their copies alone, or starts a copy. -/
theorem keeping_proceeds (keeping : Keeping beginning complained written state)
    (proceeds : Proceeds state after) : Keeping beginning complained written after := by
  refine keeping_congr keeping proceeds.streams proceeds.errorRelay ?_
  unfold outputCopy
  rcases proceeds.outputRelay with same | ⟨none, started⟩
  · rw [same]
  · rw [none, started]
    rfl

/-- A turn of the relay of the client's messages, which has other streams. -/
theorem keeping_forward (keeping : Keeping beginning complained written state)
    (turn : state.forward = some after) : Keeping beginning complained written after := by
  obtain ⟨forwarder, _, ⟨_, read⟩ | ⟨batch, _, sent⟩⟩ := forward_cases turn
  · obtain ⟨_, rfl⟩ | ⟨_, client, events, next, rfl⟩ := readMessage_cases read
    · exact keeping_closeStreams (keeping_congr keeping rfl rfl rfl)
    · exact keeping_closeStreams (keeping_congr keeping rfl rfl rfl)
  · obtain ⟨toServer, disk, events, next, rfl, _⟩ := sendBatch_cases sent
    exact keeping_closeStreams (keeping_congr keeping rfl rfl rfl)

/-- Every turn. -/
theorem keeping_advance {task : Task} (orderly : state.Orderly)
    (keeping : Keeping beginning complained written state) (clear : state.cancelled = false ∨ state.Silent)
    (accepts : ¬ Moment.ClientRefuses ⟨state, .turn task, after⟩) (turn : state.advance task = some after) :
    Keeping beginning complained written after := by
  cases task with
  | run => exact keeping_proceeds keeping (proceed_proceeds orderly turn)
  | giveUp => exact keeping_proceeds keeping (giveUp_proceeds orderly turn)
  | errorRelay => exact keeping_copyErrors keeping clear accepts turn
  | outputRelay => exact keeping_copyOutput keeping clear accepts turn
  | inputRelay => exact keeping_forward keeping turn
  | watch =>
    obtain ⟨_, _, _, rfl, _, _⟩ := watch_cases turn
    exact keeping_congr keeping rfl rfl rfl
  | wake =>
    obtain ⟨_, rfl, _⟩ := wake_cases turn
    exact keeping_congr keeping rfl rfl rfl

/-! ### Moves -/

/-- Every move, those among them with which the server writes. -/
theorem keeping_meet {move : Move} (keeping : Keeping beginning complained written state)
    (met : state.meet move = some after) :
    Keeping beginning (complained ++ (Happening.move move).complaint)
      (written ++ (Happening.move move).output) after := by
  have aside (streams : after.streams = state.streams) (errors : after.errorRelay = state.errorRelay)
      (output : after.outputCopy = state.outputCopy) :
      Keeping beginning (complained ++ []) (written ++ []) after := by
    rw [List.append_nil, List.append_nil]
    exact keeping_congr keeping streams errors output
  cases move with
  | serverWrites bytes =>
    obtain ⟨pipe, filled, moved⟩ := Option.bind_eq_some_iff.mp met
    obtain rfl := Option.some.inj moved
    refine ⟨?_, keeping.output.fill filled⟩
    change state.errorRelay.Keeps _ (complained ++ []) state.errors state.clientErrors
    rw [List.append_nil]
    exact keeping.errors
  | serverComplains bytes =>
    obtain ⟨pipe, filled, moved⟩ := Option.bind_eq_some_iff.mp met
    obtain rfl := Option.some.inj moved
    refine ⟨keeping.errors.fill filled, ?_⟩
    change state.outputCopy.Keeps _ (written ++ []) state.fromServer state.clientOutput
    rw [List.append_nil]
    exact keeping.output
  | serverStopsWriting failure =>
    obtain rfl := Option.some.inj met
    change Keeping beginning (complained ++ []) (written ++ []) _
    rw [List.append_nil, List.append_nil]
    exact ⟨keeping.errors, keeping.output.hangUp failure⟩
  | serverFallsSilent =>
    obtain rfl := Option.some.inj met
    change Keeping beginning (complained ++ []) (written ++ []) _
    rw [List.append_nil, List.append_nil]
    exact ⟨keeping.errors.hangUp state.errors.broken, keeping.output⟩
  | serverEnds status =>
    simp only [meet] at met
    split at met
    · obtain rfl := Option.some.inj met
      exact aside rfl rfl rfl
    · exact absurd met (by simp)
  | serverReads count | connects connection =>
    simp only [meet] at met
    split at met
    · obtain rfl := Option.some.inj met
      exact aside rfl rfl rfl
    · exact absurd met (by simp)
  | clientWrites bytes =>
    obtain ⟨pipe, _, filled⟩ := Option.bind_eq_some_iff.mp met
    obtain rfl := Option.some.inj filled
    exact aside rfl rfl rfl
  | cancels | serverStopsReading | clientStopsWriting | timePasses time | filesChange disk =>
    obtain rfl := Option.some.inj met
    exact aside rfl rfl rfl

/-- Whatever happens. -/
theorem keeping_perform {happening : Happening} (orderly : state.Orderly)
    (keeping : Keeping beginning complained written state) (clear : state.cancelled = false ∨ state.Silent)
    (accepts : ¬ Moment.ClientRefuses ⟨state, happening, after⟩)
    (performed : state.perform happening = some after) :
    Keeping beginning (complained ++ happening.complaint) (written ++ happening.output) after := by
  cases happening with
  | move move => exact keeping_meet keeping performed
  | turn task =>
    change Keeping beginning (complained ++ []) (written ++ []) after
    rw [List.append_nil, List.append_nil]
    exact keeping_advance orderly keeping clear accepts performed

end State

/-! ## The whole session -/

/-- The session is cancelled in this moment, and not by its run. -/
def Moment.CutsShort (moment : Moment) : Prop :=
  moment.before.cancelled = false ∧ moment.after.cancelled = true ∧ moment.happening ≠ .turn .run

/-- What each phase says of a run that nobody has cut short. Until the run has waited for both relays, the
session is not cancelled. -/
def Phase.Uncut (cancelled : Bool) (kept : Prop) : Phase → Prop
  | .starting | .closing (.exited _) | .opening | .draining | .drainingErrors | .drainingInput | .waiting =>
    cancelled = false ∧ kept
  | .concluding (some _) | .returned (.ok _) => kept
  | .stopping (.fault _) | .closing (.fault _) | .returned (.error _) => True
  | .stopping (.exited _) | .stopping .cancelled | .closing .cancelled | .stoppingLate | .concluding none => False

theorem Phase.Uncut.imp {phase : Phase} {cancelled cancelled' : Bool} {kept kept' : Prop}
    (uncut : phase.Uncut cancelled kept) (still : cancelled = false → cancelled' = false)
    (keeps : kept → kept') : phase.Uncut cancelled' kept' := by
  cases phase with
  | starting | opening | draining | drainingErrors | drainingInput | waiting => exact And.imp still keeps uncut
  | stoppingLate => exact uncut
  | stopping setback =>
    cases setback with
    | fault fault => trivial
    | exited status | cancelled => exact uncut
  | closing setback =>
    cases setback with
    | fault fault => trivial
    | exited status => exact And.imp still keeps uncut
    | cancelled => exact uncut
  | concluding status =>
    cases status with
    | some status => exact keeps uncut
    | none => exact uncut
  | returned result =>
    cases result with
    | ok outcome => exact keeps uncut
    | error fault => trivial

/-- A change that does not cut the run short leaves it uncut. -/
theorem Change.uncut {now next : Standing} {happening : Happening} {kept : Prop}
    (change : Change now happening next)
    (own : now.cancelled = false → next.cancelled = true → happening = .turn .run)
    (uncut : now.phase.Uncut now.cancelled kept) : next.phase.Uncut next.cancelled kept := by
  have surroundings (elsewhere : happening ≠ .turn .run) : now.cancelled = false → next.cancelled = false :=
    fun before => Bool.eq_false_iff.mpr fun later => elsewhere (own before later)
  cases change with
  | aside | ends | inert | begun | stoodDown | alive | wakes => exact uncut
  | cancels => exact uncut.imp (surroundings (by simp)) id
  | dead => exact uncut.imp (surroundings (by simp)) id
  | onward onward =>
    obtain ⟨phase, server, ownCancelled, outerCancelled, monitor, probe⟩ := now
    cases onward <;> exact uncut
  | fails | faulty => trivial
  | exits starting | returnsExited starting =>
    rw [starting] at uncut
    exact uncut
  | closes joined | finds joined =>
    rw [joined] at uncut
    exact uncut.2
  | closesCancelled stopping | stoppedLate _ stopping | returnsCancelled stopping =>
    rw [stopping] at uncut
    exact uncut.elim
  | abandons starting cancelled | givesUp starting cancelled =>
    rw [starting] at uncut
    exact absurd (uncut.1.symm.trans cancelled) (by simp)
  | @stopped setback status stopping =>
    rw [stopping] at uncut
    cases setback with
    | fault fault => trivial
    | exited status | cancelled => exact uncut.elim
  | @returnsLost status concluding lost =>
    rw [concluding] at uncut
    cases status with
    | some status => exact uncut
    | none => exact uncut.elim

namespace State

variable {beginning : Beginning} {complained written : Bytes} {state after : State} {past : List Moment}

/-- In a run that nobody has cut short, no copy is at work once the session is cancelled. -/
theorem uncut_clear {kept : Prop} (orderly : state.Orderly) (uncut : state.phase.Uncut state.cancelled kept) :
    state.phase.Uncut state.cancelled (kept ∧ (state.cancelled = false ∨ state.Silent)) := by
  unfold Orderly at orderly
  cases phase : state.phase with
  | starting | opening | draining | drainingErrors | drainingInput | waiting =>
    rw [phase] at uncut
    exact ⟨uncut.1, uncut.2, Or.inl uncut.1⟩
  | stoppingLate =>
    rw [phase] at uncut
    exact uncut
  | stopping setback =>
    rw [phase] at uncut
    cases setback with
    | fault fault => trivial
    | exited status | cancelled => exact uncut
  | closing setback =>
    rw [phase] at uncut
    cases setback with
    | fault fault => trivial
    | exited status => exact ⟨uncut.1, uncut.2, Or.inl uncut.1⟩
    | cancelled => exact uncut
  | concluding status =>
    rw [phase] at uncut orderly
    cases status with
    | some status => exact ⟨uncut, Or.inr orderly.1⟩
    | none => exact uncut
  | returned result =>
    rw [phase] at uncut orderly
    cases result with
    | ok outcome => exact ⟨uncut, Or.inr orderly.1⟩
    | error fault => trivial

/-- Whatever happens without cutting the run short, and without a refusal of the client, loses nothing. -/
theorem uncut_perform {happening : Happening} (orderly : state.Orderly)
    (uncut : state.phase.Uncut state.cancelled (Keeping beginning complained written state))
    (own : ¬ Moment.CutsShort ⟨state, happening, after⟩)
    (accepts : ¬ Moment.ClientRefuses ⟨state, happening, after⟩)
    (performed : state.perform happening = some after) :
    after.phase.Uncut after.cancelled
      (Keeping beginning (complained ++ happening.complaint) (written ++ happening.output) after) := by
  have run (before : state.standing.cancelled = false) (later : after.standing.cancelled = true) :
      happening = .turn .run := by
    by_contra elsewhere
    exact own ⟨before, later, elsewhere⟩
  have later := (perform_change performed).uncut run (uncut_clear orderly uncut)
  exact later.imp id fun ⟨keeping, clear⟩ => keeping_perform orderly keeping clear accepts performed

/-- So does a whole course. -/
theorem course_uncut {prepared : Channel.Prepared} {disk : Disk}
    (course : Course (beginning.state prepared disk) past after)
    (own : ∀ moment ∈ past, ¬ moment.CutsShort) (accepts : ∀ moment ∈ past, ¬ moment.ClientRefuses) :
    after.phase.Uncut after.cancelled
      (Keeping beginning (told Happening.complaint past) (told Happening.output past) after) := by
  induction course with
  | start =>
    refine ⟨rfl, ?_, ?_⟩
    · exact ⟨rfl, fun broken => absurd rfl broken⟩
    · exact ⟨rfl, fun broken => absurd rfl broken⟩
  | step course happening performed inductionHypothesis =>
    obtain ⟨own, others⟩ := List.forall_mem_cons.mp own
    obtain ⟨accepted, earlier⟩ := List.forall_mem_cons.mp accepts
    rw [told_cons, told_cons]
    exact uncut_perform (reachable_orderly course.reachable) (inductionHypothesis others earlier) own accepted
      performed

/-- Once a session is connected, the next turn of its run starts the relay of the server's output, and it stays
started. -/
theorem connected_perform {happening : Happening} (orderly : state.Orderly)
    (connected : state.phase = .opening ∨ state.outputRelay.isSome = true)
    (performed : state.perform happening = some after) :
    after.phase = .opening ∨ after.outputRelay.isSome = true := by
  have onward (onward : Onward state after) : after.phase = .opening ∨ after.outputRelay.isSome = true :=
    connected.imp onward.phase.trans onward.output.trans
  cases happening with
  | move move => exact onward (onward_meet performed)
  | turn task =>
    cases task with
    | errorRelay => exact onward (onward_copyErrors performed)
    | outputRelay => exact onward (onward_copyOutput performed)
    | inputRelay => exact onward (onward_forward performed)
    | watch => exact onward (onward_watch performed)
    | wake => exact onward (onward_wake performed)
    | giveUp =>
      have turn : state.giveUp = some after := performed
      rcases connected with opening | relayed
      · exact absurd turn (by simp [giveUp, opening])
      · refine Or.inr ?_
        rcases (giveUp_proceeds orderly turn).outputRelay with same | ⟨_, started⟩
        · rw [same, relayed]
        · rw [started]
          rfl
    | run =>
      have turn : state.proceed = some after := performed
      refine Or.inr ?_
      rcases connected with opening | relayed
      · simp only [proceed, opening] at turn
        obtain rfl := Option.some.inj turn
        rfl
      · rcases (proceed_proceeds orderly turn).outputRelay with same | ⟨_, started⟩
        · rw [same, relayed]
        · rw [started]
          rfl

/-- So a session that has been connected has a relay of the server's output, but for the moment before it is
started. -/
theorem course_connected {prepared : Channel.Prepared} {disk : Disk}
    (course : Course (beginning.state prepared disk) past after)
    (connected : ∃ moment ∈ past, moment.after.phase = .opening) :
    after.phase = .opening ∨ after.outputRelay.isSome = true := by
  induction course with
  | start =>
    obtain ⟨moment, among, _⟩ := connected
    exact absurd among List.not_mem_nil
  | step course happening performed inductionHypothesis =>
    obtain ⟨moment, among, opening⟩ := connected
    rcases List.mem_cons.mp among with rfl | earlier
    · exact Or.inl opening
    · have before := inductionHypothesis ⟨moment, earlier, opening⟩
      exact connected_perform (reachable_orderly course.reachable) before performed

end State

/-- The run of a session that nobody cancels before the run does so itself, and whose client takes all that it
gets, loses nothing of what the server writes. If it returns with an outcome, the client has got all of the
server's error output, be the server connected or not; and if it has been connected, all of its output. -/
theorem server_output_delivered (beginning : Beginning) {state after : State} {disk : Disk} {past : List Moment}
    {outcome : Outcome} (started : (start beginning).value = (.ok state, disk)) (course : Course state past after)
    (own : ∀ moment ∈ past, ¬ moment.CutsShort) (accepts : ∀ moment ∈ past, ¬ moment.ClientRefuses)
    (returned : after.phase = .returned (.ok outcome)) :
    after.clientErrors.accepted = beginning.clientErrors.accepted ++ told Happening.complaint past ∧
    ((∃ moment ∈ past, moment.after.phase = .opening) →
      after.clientOutput.accepted = beginning.clientOutput.accepted ++ told Happening.output past) := by
  obtain ⟨_, _, begun⟩ := start_value beginning
  rw [started] at begun
  obtain ⟨prepared, _, rfl⟩ := begun
  have orderly := State.reachable_orderly course.reachable
  have keeping := State.course_uncut course own accepts
  unfold State.Orderly at orderly
  rw [returned] at orderly keeping
  obtain ⟨silent, _⟩ := orderly
  refine ⟨(keeping.errors.delivered silent.errors).bytes, fun connected => ?_⟩
  rcases State.course_connected course connected with opening | relayed
  · exact absurd (returned.symm.trans opening) (by simp)
  · refine (keeping.output.delivered ?_).bytes
    rcases silent.output with none | ended
    · exact absurd relayed (by simp [none])
    · exact State.outputCopy_finished ended

theorem fetch_single {pipe : Pipe} {byte : UInt8} (content : pipe.content = [byte]) :
    pipe.fetch Relay.portion = (.data [byte], { pipe with content := [] }) := by
  unfold Pipe.fetch
  rw [content]
  rfl

theorem pass_single (byte : UInt8) : Relay.pass {} [byte] = (.ok (), { seen := [.flushed, .wrote [byte]] }) := by
  cbv

/-- A copy passes on a single byte that waits in its pipe. -/
theorem advance_single {pipe : Pipe} {byte : UInt8} (content : pipe.content = [byte]) :
    Copying.advance false pipe {} (.running 0) =
      some (.running 1, { pipe with content := [] }, { seen := [.flushed, .wrote [byte]] }) := by
  simp only [Copying.advance, fetch_single content, pass_single]
  rfl

theorem not_refuses_single {pipe : Pipe} {byte : UInt8} (content : pipe.content = [byte]) :
    ¬ Refuses pipe {} := by
  rintro ⟨bytes, rest, failure, after, found, passed⟩
  rw [fetch_single content] at found
  obtain rfl := Pipe.Finding.data.inj (Prod.mk.inj found).1
  rw [pass_single] at passed
  exact absurd (Prod.mk.inj passed).1 (by simp)

theorem not_refuses_nothing {pipe : Pipe} {sink : Sink} (content : pipe.content = []) :
    ¬ Refuses pipe sink := by
  rintro ⟨bytes, rest, failure, after, found, passed⟩
  unfold Pipe.fetch at found
  rw [content] at found
  split at found
  · rename_i same
    exact absurd same (by simp)
  · exact absurd (Prod.mk.inj found).1 (by simp)
  · have same := (Prod.mk.inj found).1
    split at same
    · exact absurd same (by simp)
    · exact absurd same (by simp)

/-- The relay of the error output passes on a single byte. -/
theorem copyErrors_single {state : State} {byte : UInt8} (running : state.errorRelay = .running 0)
    (uncancelled : state.cancelled = false) (sink : state.clientErrors = {})
    (content : state.errors.content = [byte]) :
    state.copyErrors = some { state with
      errorRelay := .running 1
      errors := { state.errors with content := [] }
      clientErrors := { seen := [.flushed, .wrote [byte]] } } := by
  unfold State.copyErrors
  rw [running, uncancelled, sink, advance_single content]
  rfl

/-- So does the relay of the output. -/
theorem copyOutput_single {state : State} {byte : UInt8} (running : state.outputRelay = some (.running 0))
    (uncancelled : state.cancelled = false) (sink : state.clientOutput = {})
    (content : state.fromServer.content = [byte]) :
    state.copyOutput = some (State.closeStreams { state with
      outputRelay := some (.running 1)
      fromServer := { state.fromServer with content := [] }
      clientOutput := { seen := [.flushed, .wrote [byte]] } }) := by
  unfold State.copyOutput
  rw [running, Option.bind_eq_bind, Option.bind_some, uncancelled, sink, advance_single content]
  rfl

namespace Moment

variable {before after : State} {moment : Moment}

/-- The run cuts nothing short. -/
theorem byRun : ¬ CutsShort ⟨before, .turn .run, after⟩ := fun cuts => cuts.2.2 rfl

/-- Nor does what leaves the session uncancelled. -/
theorem calm (uncancelled : moment.after.cancelled = false) : ¬ moment.CutsShort :=
  fun cuts => absurd (uncancelled.symm.trans cuts.2.1) Bool.false_ne_true

/-- Whether something is a turn of one of the two copies. -/
def copies (moment : Moment) : Bool :=
  match moment.happening with
  | .turn .errorRelay | .turn .outputRelay => true
  | _ => false

/-- Only the copies write to the client. -/
theorem apart (other : moment.copies = false) : ¬ moment.ClientRefuses := by
  rintro ⟨_, ⟨turn, _⟩ | ⟨turn, _⟩⟩
  · simp [copies, turn] at other
  · simp [copies, turn] at other

theorem errorsTake (takes : ¬ Refuses before.errors before.clientErrors) :
    ¬ ClientRefuses ⟨before, .turn .errorRelay, after⟩ := by
  rintro ⟨_, ⟨_, refuses⟩ | ⟨turn, _⟩⟩
  · exact takes refuses
  · exact absurd turn (by simp)

theorem outputTakes (takes : ¬ Refuses before.fromServer before.clientOutput) :
    ¬ ClientRefuses ⟨before, .turn .outputRelay, after⟩ := by
  rintro ⟨_, ⟨turn, _⟩ | ⟨_, refuses⟩⟩
  · exact absurd turn (by simp)
  · exact takes refuses

end Moment

open Moment

/-- A connected session that waits for the end of the server's output, of which nothing has come yet, while
nothing lies in the other streams and nobody has cancelled or watches it. -/
structure Attached (state : State) : Prop where
  phase : state.phase = .draining
  endpoint : state.settings.endpoint = .named "c"
  fromServer : state.fromServer = { capacity := channelCapacity }
  clientOutput : state.clientOutput = {}
  errors : state.errors = { capacity := pipeCapacity }
  outer : state.outerCancelled = false
  own : state.ownCancelled = false
  server : state.server = .running
  errorRelay : state.errorRelay = .running 1
  outputRelay : state.outputRelay = some (.running 0)
  inputRelay : ∃ forwarder, state.inputRelay = some forwarder ∧ forwarder.stage = .reading
  monitor : state.monitor = .absent

/-- It ends in order when the server writes one byte of output and ends. -/
theorem Attached.returns {start state : State} {past : List Moment} (attached : Attached state)
    (course : Course start past state) :
    ∃ later after, Course start (later ++ past) after ∧
      after.phase = .returned (.ok (.serverExited (.ofCode 0))) ∧
      (∀ moment ∈ later, ¬ moment.CutsShort) ∧ (∀ moment ∈ later, ¬ moment.ClientRefuses) ∧
      told Happening.complaint later = [] ∧ told Happening.output later = Bytes.ascii "o" := by
  obtain ⟨settings, workspace, probe, disk, clock, client, toServer, _, _, _, clientErrors, _, _,
    inputStopped, _, prepared, connection, _, _, _, _, _, events⟩ := state
  obtain ⟨⟩ := settings
  obtain ⟨rfl, rfl, rfl, rfl, rfl, rfl, rfl, rfl, rfl, rfl,
    ⟨⟨_, buffer, interceptor, log, totals⟩, rfl, rfl⟩, rfl⟩ := attached
  have written := course.step (.move (.serverWrites (Bytes.ascii "o"))) rfl
  have relayed := written.step (.turn .outputRelay) (copyOutput_single rfl rfl rfl rfl)
  have closed := relayed.step (.move (.serverStopsWriting none)) rfl
  have ended := closed.step (.turn .outputRelay) rfl
  have drained := ended.step (.turn .run) rfl
  have silent := drained.step (.move .serverFallsSilent) rfl
  have silenced := silent.step (.turn .errorRelay) rfl
  have joined := silenced.step (.turn .run) rfl
  have stopped := joined.step (.turn .inputRelay) rfl
  have waiting := stopped.step (.turn .run) rfl
  have exited := waiting.step (.move (.serverEnds (.ofCode 0))) rfl
  have concluding := exited.step (.turn .run) rfl
  have returned := concluding.step (.turn .run) rfl
  refine ⟨[_, _, _, _, _, _, _, _, _, _, _, _, _], _, returned, rfl, ?_, ?_, rfl, rfl⟩
  · simp only [List.forall_mem_cons]
    exact ⟨byRun, byRun, calm rfl, byRun, calm rfl, byRun, calm rfl, calm rfl, byRun, calm rfl, calm rfl,
      calm rfl, calm rfl, by simp⟩
  · simp only [List.forall_mem_cons]
    exact ⟨apart rfl, apart rfl, apart rfl, apart rfl, apart rfl, apart rfl,
      errorsTake (not_refuses_nothing rfl), apart rfl, apart rfl, outputTakes (not_refuses_nothing rfl),
      apart rfl, outputTakes (not_refuses_single rfl), apart rfl, by simp⟩

/-- The session over a channel whose server complains, is connected, writes and ends: the client has got both
when the run returns. -/
theorem connected_server_output_delivered :
    ∃ state disk past after, (start equipped).value = (.ok state, disk) ∧ Course state past after ∧
      (∀ moment ∈ past, ¬ moment.CutsShort) ∧ (∀ moment ∈ past, ¬ moment.ClientRefuses) ∧
      after.phase = .returned (.ok (.serverExited (.ofCode 0))) ∧
      (∃ moment ∈ past, moment.after.phase = .opening) ∧
      after.clientErrors.accepted = Bytes.ascii "e" ∧ after.clientOutput.accepted = Bytes.ascii "o" := by
  have starts : (match (start equipped).value.1 with | .ok _ => true | .error _ => false) = true := by
    cbv
  obtain ⟨_, _, begun⟩ := start_value equipped
  rcases started : (start equipped).value with ⟨fault | state, disk⟩
  · rw [started] at starts
    exact absurd starts Bool.false_ne_true
  · rw [started] at begun
    obtain ⟨prepared, prepares, rfl⟩ := begun
    cases prepared with
    | standard => exact absurd prepares (by simp : Endpoint.named "c" ≠ .standard)
    | listening listener =>
      let start := equipped.state (.listening listener) disk
      obtain ⟨past, state, course, attached, own, accepts, opening, complaints, silent⟩ :
          ∃ past state, Course start past state ∧ Attached state ∧
            (∀ moment ∈ past, ¬ moment.CutsShort) ∧ (∀ moment ∈ past, ¬ moment.ClientRefuses) ∧
            (∃ moment ∈ past, moment.after.phase = .opening) ∧
            told Happening.complaint past = Bytes.ascii "e" ∧ told Happening.output past = [] := by
        have course := (Course.start : Course start [] start)
        have complained := course.step (.move (.serverComplains (Bytes.ascii "e"))) rfl
        have relayed := complained.step (.turn .errorRelay) (copyErrors_single rfl rfl rfl rfl)
        have connected := relayed.step (.move (.connects (.ok ()))) rfl
        have opening := connected.step (.turn .run) rfl
        have draining := opening.step (.turn .run) rfl
        refine ⟨[_, _, _, _, _], _, draining,
          ⟨rfl, rfl, rfl, rfl, rfl, rfl, rfl, rfl, rfl, rfl, ⟨_, rfl, rfl⟩, rfl⟩, ?_, ?_,
          ⟨_, .tail _ (.head _), rfl⟩, rfl, rfl⟩
        · simp only [List.forall_mem_cons]
          exact ⟨byRun, byRun, calm rfl, calm rfl, calm rfl, by simp⟩
        · simp only [List.forall_mem_cons]
          exact ⟨apart rfl, apart rfl, apart rfl, errorsTake (not_refuses_single rfl), apart rfl, by simp⟩
      obtain ⟨later, after, course, returned, own', accepts', none, written⟩ := attached.returns course
      have uncut := List.forall_mem_append.mpr ⟨own', own⟩
      have accepted := List.forall_mem_append.mpr ⟨accepts', accepts⟩
      have connected : ∃ moment ∈ later ++ past, moment.after.phase = .opening := by
        obtain ⟨moment, among, opening⟩ := opening
        exact ⟨moment, List.mem_append_right later among, opening⟩
      obtain ⟨errors, output⟩ := server_output_delivered equipped started course uncut accepted returned
      refine ⟨start, disk, _, after, rfl, course, uncut, accepted, returned, connected, ?_, ?_⟩
      · rw [errors, told_append, none, complaints]
        rfl
      · rw [output connected, told_append, silent, written]
        rfl

end LspProxy.Session
