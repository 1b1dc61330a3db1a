import LspProxy.Proofs.Session.Phases

/-!
# What happens in the course of a session

What a session comes to depends on a few parts of its state: where its run stands, what has become of the
server, who has cancelled, and what the watch has found (`Standing`). A course is a session together with
all that has happened in it (`Course`). Whatever happens, those parts change in one of a few ways
(`Change`); that is looked up in the definitions of the tasks and of their surroundings here, once
(`perform_change`), so that a law about courses is proved by looking through these ways.

A change says more of the run than that its phase goes on. It says what the run has found to go on, and
that the run stops the server only on its way into a phase in which it waits for a stopped server.
-/
namespace LspProxy.Session

/-! ## Courses -/

/-- What happens in one step of a session. -/
inductive Happening where
  | turn (task : Task)
  | move (move : Move)

/-- A step of a session, with the states before it and after it. -/
structure Moment where
  before : State
  happening : Happening
  after : State

namespace State

/-- The session after something has happened to it, if it can happen. -/
def perform (state : State) : Happening → Option State
  | .turn task => state.advance task
  | .move move => state.meet move

end State

/-- All that has happened in a session since its start, the latest first, and the state that it has led
to. -/
inductive Course (start : State) : List Moment → State → Prop
  | start : Course start [] start
  | step {past : List Moment} {state after : State} (course : Course start past state)
    (happening : Happening) (performed : state.perform happening = some after) :
    Course start (⟨state, happening, after⟩ :: past) after

/-- A course comes through the states that are reached. -/
theorem Course.reachable {start state : State} {past : List Moment} (course : Course start past state) :
    Reachable start state := by
  induction course with
  | start => exact .start
  | step course happening performed inductionHypothesis =>
    apply Reachable.step inductionHypothesis
    cases happening with
    | turn task => exact .turn task performed
    | move move => exact .move move performed

/-- And every state that is reached is reached in some course. -/
theorem Reachable.course {start state : State} (reachable : Reachable start state) :
    ∃ past, Course start past state := by
  induction reachable with
  | start => exact ⟨[], .start⟩
  | step before step inductionHypothesis =>
    obtain ⟨past, course⟩ := inductionHypothesis
    cases step with
    | turn task advanced => exact ⟨_, .step course (.turn task) advanced⟩
    | move move met => exact ⟨_, .step course (.move move) met⟩

/-! ## What the outcome depends on -/

/-- The parts of a session that its outcome depends on. -/
structure Standing where
  phase : Phase
  server : Server
  ownCancelled : Bool
  outerCancelled : Bool
  monitor : Monitor
  probe : Parent.Probe

/-- Those parts of a session. -/
def State.standing (state : State) : Standing where
  phase := state.phase
  server := state.server
  ownCancelled := state.ownCancelled
  outerCancelled := state.outerCancelled
  monitor := state.monitor
  probe := state.probe

/-- The session is cancelled. -/
def Standing.cancelled (standing : Standing) : Bool := standing.outerCancelled || standing.ownCancelled

/-- The watch has ended, and has found the parent dead. -/
def Standing.ParentLost (standing : Standing) : Prop :=
  ∃ parent, standing.monitor = .finished (.parentExited parent)

/-- There is no watch, or it has ended without finding the parent dead. -/
def Standing.Unwatched (standing : Standing) : Prop :=
  standing.monitor = .absent ∨
    ∃ verdict, standing.monitor = .finished verdict ∧ ∀ parent, verdict ≠ .parentExited parent

/-- The server has been asked to stop. One that has ended by itself is left as it is. -/
def Server.stopped : Server → Server
  | .running => .ended (.ofSignal 9)
  | server => server

/-- The setback is a fault of the connection, after which the run cancels the session. -/
def Setback.isFault : Setback → Bool
  | .fault _ => true
  | _ => false

/-- The run goes from one phase of a connected session to the next. -/
inductive Phase.Onward : Phase → Phase → Prop
  | connected : Onward .starting .opening
  | opened : Onward .opening .draining
  | drained : Onward .draining .drainingErrors
  | drainedErrors : Onward .drainingErrors .drainingInput
  | drainedInput : Onward .drainingInput .waiting

/-- The ways in which something that happens changes what the outcome depends on. -/
inductive Change : Standing → Happening → Standing → Prop
  /-- It changes none of it. -/
  | aside {now : Standing} {happening : Happening} (unwatched : happening ≠ .turn .watch) :
    Change now happening now
  /-- The server ends by itself. -/
  | ends {now : Standing} (status : ExitStatus) (running : now.server = .running) :
    Change now (.move (.serverEnds status)) { now with server := .ended status }
  /-- The proxy is cancelled from outside. -/
  | cancels {now : Standing} : Change now (.move .cancels) { now with outerCancelled := true }
  /-- The watch has nobody to watch. -/
  | inert {now : Standing} {interval : Duration} (fresh : now.monitor = .fresh interval)
    (orphan : now.probe.parent = none) :
    Change now (.turn .watch) { now with monitor := .finished .inert }
  /-- The watch begins. -/
  | begun {now : Standing} {interval : Duration} {parent : Nat} (fresh : now.monitor = .fresh interval)
    (known : now.probe.parent = some parent) :
    Change now (.turn .watch) { now with monitor := .asking interval parent 0 }
  /-- The watch ends because the session is cancelled. -/
  | stoodDown {now : Standing} (watching : ∀ verdict, now.monitor ≠ .finished verdict)
    (cancelled : now.cancelled = true) :
    Change now (.turn .watch) { now with monitor := .finished .cancelled }
  /-- The parent is found alive. -/
  | alive {now : Standing} {interval : Duration} {parent checks : Nat} (wake : Nat)
    (asking : now.monitor = .asking interval parent checks) (uncancelled : now.cancelled = false)
    (answer : now.probe.alive checks = true) :
    Change now (.turn .watch) { now with monitor := .resting interval parent (checks + 1) wake }
  /-- The parent is found dead. -/
  | dead {now : Standing} {interval : Duration} {parent checks : Nat}
    (asking : now.monitor = .asking interval parent checks) (uncancelled : now.cancelled = false)
    (answer : now.probe.alive checks = false) :
    Change now (.turn .watch)
      { now with monitor := .finished (.parentExited parent), ownCancelled := true }
  /-- A wait of the watch is over. -/
  | wakes {now : Standing} {interval : Duration} {parent checks wake : Nat}
    (resting : now.monitor = .resting interval parent checks wake) :
    Change now (.turn .wake) { now with monitor := .asking interval parent checks }
  /-- The run goes on. -/
  | onward {now : Standing} {phase : Phase} (onward : now.phase.Onward phase) :
    Change now (.turn .run) { now with phase }
  /-- The run stops a server that it cannot be connected to. -/
  | fails {now : Standing} (fault : Channel.Fault) (starting : now.phase = .starting) :
    Change now (.turn .run)
      { now with server := now.server.stopped, phase := .stopping (.fault fault) }
  /-- The run finds that the server has ended before it was connected. -/
  | exits {now : Standing} {status : ExitStatus} (starting : now.phase = .starting)
    (ended : now.server = .ended status) :
    Change now (.turn .run) { now with server := .reaped status, phase := .closing (.exited status) }
  /-- The run stops a server that is not connected because the session is cancelled. -/
  | abandons {now : Standing} (starting : now.phase = .starting) (cancelled : now.cancelled = true) :
    Change now (.turn .run)
      { now with server := now.server.stopped, phase := .stopping .cancelled }
  /-- The run learns the status of a server that it has stopped after a setback. -/
  | stopped {now : Standing} {setback : Setback} (status : ExitStatus)
    (stopping : now.phase = .stopping setback) :
    Change now (.turn .run)
      { now with
        server := .reaped status
        phase := .closing setback
        ownCancelled := now.ownCancelled || setback.isFault }
  /-- The run ends with a fault. -/
  | faulty {now : Standing} {fault : Channel.Fault} (closing : now.phase = .closing (.fault fault)) :
    Change now (.turn .run) { now with phase := .returned (.error (.transport fault)) }
  /-- The run cancels the session, whose server had ended before it was connected. -/
  | closes {now : Standing} {status : ExitStatus} (closing : now.phase = .closing (.exited status)) :
    Change now (.turn .run) { now with phase := .concluding (some status), ownCancelled := true }
  /-- The run has nothing more to wait for but the watch, since the session was cancelled. -/
  | closesCancelled {now : Standing} (closing : now.phase = .closing .cancelled) :
    Change now (.turn .run) { now with phase := .concluding none }
  /-- The run finds that the server has ended. -/
  | finds {now : Standing} {status : ExitStatus} (waiting : now.phase = .waiting)
    (ended : now.server = .ended status) :
    Change now (.turn .run)
      { now with server := .reaped status, phase := .concluding (some status), ownCancelled := true }
  /-- The run stops the server because the session is cancelled. -/
  | givesUp {now : Standing} (waiting : now.phase = .waiting) (cancelled : now.cancelled = true) :
    Change now (.turn .giveUp) { now with server := now.server.stopped, phase := .stoppingLate }
  /-- The run learns the status of the server that it has stopped. -/
  | stoppedLate {now : Standing} (status : ExitStatus) (stopping : now.phase = .stoppingLate) :
    Change now (.turn .run)
      { now with server := .reaped status, phase := .concluding none, ownCancelled := true }
  /-- The run returns after the watch has found the parent dead. -/
  | returnsLost {now : Standing} {status : Option ExitStatus}
    (concluding : now.phase = .concluding status) (lost : now.ParentLost) :
    Change now (.turn .run) { now with phase := .returned (.ok .parentExited) }
  /-- The run returns after the server has ended by itself. -/
  | returnsExited {now : Standing} {status : ExitStatus}
    (concluding : now.phase = .concluding (some status)) (watched : now.Unwatched) :
    Change now (.turn .run) { now with phase := .returned (.ok (.serverExited status)) }
  /-- The run returns after the server has been stopped. -/
  | returnsCancelled {now : Standing} (concluding : now.phase = .concluding none)
    (watched : now.Unwatched) :
    Change now (.turn .run) { now with phase := .returned (.ok .cancelled) }

namespace State

variable {state after : State}

/-! ## Parts of the run -/

theorem standing_release (state : State) : state.release.standing = state.standing := by
  unfold release
  split
  · rfl
  · rfl

theorem standing_kill (state : State) :
    state.kill.standing = { state.standing with server := state.server.stopped } := by
  unfold kill
  cases server : state.server with
  | running => rfl
  | ended status => simp [standing, server, Server.stopped]
  | reaped status => simp [standing, server, Server.stopped]

theorem standing_reap? {status : ExitStatus} (reaped : state.reap? = some (status, after)) :
    state.server = .ended status ∧ after.standing = { state.standing with server := .reaped status } := by
  unfold reap? at reaped
  split at reaped
  · rename_i status' ended
    obtain ⟨rfl, rfl⟩ := Prod.mk.inj (Option.some.inj reaped)
    exact ⟨ended, rfl⟩
  · exact absurd reaped (by simp)

theorem standing_reapStopped? (reaped : state.reapStopped? = some after) :
    ∃ status, after.standing = { state.standing with server := .reaped status } := by
  obtain ⟨⟨status, middle⟩, found, reported⟩ := Option.bind_eq_some_iff.mp reaped
  obtain rfl := Option.some.inj reported
  exact ⟨status, (standing_reap? found).2⟩

theorem standing_cancel (state : State) :
    state.cancel.standing = { state.standing with ownCancelled := true } := rfl

/-- In a new phase everything else stands as it did. -/
theorem change_entering {middle : State} {now reached : Standing} {happening : Happening}
    (phase : Phase) (same : middle.standing = reached)
    (change : Change now happening { reached with phase }) :
    Change now happening ({ middle with phase } : State).standing := by
  subst same
  exact change

/-! ## The run -/

/-- The turn that leaves the start. -/
theorem leaveStart_change (starting : state.phase = .starting) (turn : state.leaveStart = some after) :
    Change state.standing (.turn .run) after.standing := by
  obtain ⟨prepared, _, turn⟩ := Option.bind_eq_some_iff.mp turn
  split at turn
  · rename_i attempt _
    have noted : (state.add attempt.events).release.standing = state.standing := standing_release _
    split at turn
    · obtain rfl := Option.some.inj turn
      apply change_entering _ noted
      apply Change.onward
      change state.phase.Onward .opening
      rw [starting]
      exact .connected
    · rename_i fault _
      obtain rfl := Option.some.inj turn
      have server : (state.add attempt.events).release.server = state.server :=
        congrArg Standing.server noted
      have killed := standing_kill (state.add attempt.events).release
      rw [noted, server] at killed
      exact change_entering _ killed (.fails fault starting)
  · have released := standing_release state
    have server : state.release.server = state.server := congrArg Standing.server released
    split at turn
    · rename_i status middle found
      obtain ⟨ended, reaped⟩ := standing_reap? found
      obtain rfl := Option.some.inj turn
      rw [released] at reaped
      rw [server] at ended
      exact change_entering _ reaped (.exits starting ended)
    · split at turn
      · rename_i cancelled
        obtain rfl := Option.some.inj turn
        have killed := standing_kill state.release
        rw [released, server] at killed
        exact change_entering _ killed (.abandons starting cancelled)
      · exact absurd turn (by simp)

/-- The last turn of the run. -/
theorem conclude_change {status : Option ExitStatus} (concluding : state.phase = .concluding status)
    (turn : state.conclude status = some after) : Change state.standing (.turn .run) after.standing := by
  have ended (unwatched : state.standing.Unwatched) (outcome : state.outcome status =
      match status with
      | some status => .serverExited status
      | none => .cancelled) :
      Change state.standing (.turn .run)
        { state.standing with phase := .returned (.ok (state.outcome status)) } := by
    rw [outcome]
    cases status with
    | some status => exact .returnsExited concluding unwatched
    | none => exact .returnsCancelled concluding unwatched
  unfold conclude at turn
  dsimp only at turn
  split at turn
  · rename_i absent
    obtain rfl := Option.some.inj turn
    apply ended (.inl absent)
    cases status <;> simp [outcome, absent]
  · rename_i verdict finished
    obtain rfl := Option.some.inj turn
    cases verdict with
    | parentExited parent =>
      have lost : state.outcome status = .parentExited := by simp [outcome, finished]
      rw [lost]
      exact .returnsLost concluding ⟨parent, finished⟩
    | cancelled | inert =>
      apply ended (.inr ⟨_, finished, nofun⟩)
      cases status <;> simp [outcome, finished]
  · exact absurd turn (by simp)

/-- Every turn of the run. -/
theorem proceed_change (turn : state.proceed = some after) :
    Change state.standing (.turn .run) after.standing := by
  have onward {middle : State} {next : Phase} (same : middle.standing = state.standing)
      (onward : state.phase.Onward next) :
      Change state.standing (.turn .run) ({ middle with phase := next } : State).standing :=
    change_entering next same (.onward onward)
  unfold proceed at turn
  cases phase : state.phase with
  | starting =>
    simp only [phase] at turn
    exact leaveStart_change phase turn
  | stopping setback =>
    simp only [phase] at turn
    obtain ⟨middle, stopped, turn⟩ := Option.bind_eq_some_iff.mp turn
    obtain ⟨status, reaped⟩ := standing_reapStopped? stopped
    obtain rfl := Option.some.inj turn
    have change : Change state.standing _ _ := .stopped status phase
    cases setback with
    | fault fault =>
      have cancelled := standing_cancel middle
      rw [reaped] at cancelled
      apply change_entering _ cancelled
      simpa [Setback.isFault] using change
    | exited status | cancelled =>
      apply change_entering _ reaped
      simpa [Setback.isFault] using change
  | closing setback =>
    simp only [phase] at turn
    obtain ⟨middle, joined, turn⟩ := Option.bind_eq_some_iff.mp turn
    obtain ⟨_, events, rfl⟩ := joinErrors?_cases joined
    cases setback with
    | fault fault =>
      obtain rfl := Option.some.inj turn
      exact .faulty phase
    | exited status =>
      obtain rfl := Option.some.inj turn
      exact .closes phase
    | cancelled =>
      obtain rfl := Option.some.inj turn
      exact .closesCancelled phase
  | opening =>
    simp only [phase] at turn
    obtain rfl := Option.some.inj turn
    exact onward rfl (phase ▸ .opened)
  | draining =>
    simp only [phase] at turn
    obtain ⟨middle, joined, turn⟩ := Option.bind_eq_some_iff.mp turn
    obtain ⟨_, events, rfl⟩ := joinOutput?_cases joined
    obtain rfl := Option.some.inj turn
    exact onward rfl (phase ▸ .drained)
  | drainingErrors =>
    simp only [phase] at turn
    obtain ⟨middle, joined, turn⟩ := Option.bind_eq_some_iff.mp turn
    obtain ⟨_, events, rfl⟩ := joinErrors?_cases joined
    obtain rfl := Option.some.inj turn
    exact onward rfl (phase ▸ .drainedErrors)
  | drainingInput =>
    simp only [phase] at turn
    obtain ⟨middle, joined, turn⟩ := Option.bind_eq_some_iff.mp turn
    obtain ⟨_, events, rfl⟩ := joinInput?_cases joined
    obtain rfl := Option.some.inj turn
    exact onward rfl (phase ▸ .drainedInput)
  | waiting =>
    simp only [phase] at turn
    obtain ⟨⟨status, middle⟩, found, turn⟩ := Option.bind_eq_some_iff.mp turn
    obtain ⟨ended, reaped⟩ := standing_reap? found
    obtain rfl := Option.some.inj turn
    have cancelled := standing_cancel middle
    rw [reaped] at cancelled
    exact change_entering _ cancelled (.finds phase ended)
  | stoppingLate =>
    simp only [phase] at turn
    obtain ⟨middle, stopped, turn⟩ := Option.bind_eq_some_iff.mp turn
    obtain ⟨status, reaped⟩ := standing_reapStopped? stopped
    obtain rfl := Option.some.inj turn
    have cancelled := standing_cancel middle
    rw [reaped] at cancelled
    exact change_entering _ cancelled (.stoppedLate status phase)
  | concluding status =>
    simp only [phase] at turn
    exact conclude_change phase turn
  | returned result =>
    simp only [phase] at turn
    exact absurd turn (by simp)

/-- The turn in which the run gives up waiting. -/
theorem giveUp_change (turn : state.giveUp = some after) :
    Change state.standing (.turn .giveUp) after.standing := by
  unfold giveUp at turn
  split at turn
  · rename_i waiting
    split at turn
    · rename_i cancelled
      obtain rfl := Option.some.inj turn
      exact change_entering _ (standing_kill state) (.givesUp waiting cancelled)
    · exact absurd turn (by simp)
  · exact absurd turn (by simp)

/-! ## The watch -/

/-- Every turn of the watch. -/
theorem watch_change (turn : state.watch = some after) :
    Change state.standing (.turn .watch) after.standing := by
  unfold watch at turn
  split at turn
  · exact absurd turn (by simp)
  · exact absurd turn (by simp)
  · rename_i interval fresh
    cases known : state.probe.parent with
    | none =>
      simp only [known, Parent.begin, Log.Logged.value_bind, Log.Logged.value_pure] at turn
      obtain rfl := Option.some.inj turn
      exact .inert fresh known
    | some parent =>
      simp only [known, Parent.begin, Log.Logged.value_bind, Log.Logged.value_pure] at turn
      obtain rfl := Option.some.inj turn
      exact .begun fresh known
  · rename_i interval parent checks asking
    dsimp only at turn
    cases cancelled : state.cancelled with
    | true =>
      simp only [cancelled, Parent.look, if_true, Log.Logged.value_pure] at turn
      obtain rfl := Option.some.inj turn
      have watching (verdict : Parent.Verdict) : state.monitor ≠ .finished verdict := by simp [asking]
      exact .stoodDown watching cancelled
    | false =>
      cases answer : state.probe.alive checks with
      | true =>
        simp only [cancelled, answer, Parent.look, if_true, Bool.false_eq_true, if_false,
          Log.Logged.value_pure] at turn
        obtain rfl := Option.some.inj turn
        exact .alive _ asking cancelled answer
      | false =>
        simp only [cancelled, answer, Parent.look, Bool.false_eq_true, if_false,
          Log.Logged.value_bind, Log.Logged.value_pure] at turn
        obtain rfl := Option.some.inj turn
        exact .dead asking cancelled answer
  · rename_i resting
    split at turn
    · rename_i cancelled
      obtain rfl := Option.some.inj turn
      have watching (verdict : Parent.Verdict) : state.monitor ≠ .finished verdict := by simp [resting]
      exact .stoodDown watching cancelled
    · exact absurd turn (by simp)

/-- The end of a wait of the watch. -/
theorem wake_change (turn : state.wake = some after) :
    Change state.standing (.turn .wake) after.standing := by
  unfold wake at turn
  split at turn
  · rename_i interval parent checks wake resting
    split at turn
    · obtain rfl := Option.some.inj turn
      exact .wakes resting
    · exact absurd turn (by simp)
  · exact absurd turn (by simp)

/-! ## Everything -/

/-- A turn of the relay of the client's messages. -/
theorem forward_change (turn : state.forward = some after) :
    Change state.standing (.turn .inputRelay) after.standing := by
  obtain ⟨forwarder, _, ⟨_, read⟩ | ⟨batch, _, sent⟩⟩ := forward_cases turn
  · obtain ⟨_, rfl⟩ | ⟨_, client, events, next, rfl⟩ := readMessage_cases read
    · exact .aside nofun
    · exact .aside nofun
  · obtain ⟨toServer, disk, events, next, rfl, _⟩ := sendBatch_cases sent
    exact .aside nofun

/-- What the surroundings do. -/
theorem meet_change {move : Move} (met : state.meet move = some after) :
    Change state.standing (.move move) after.standing := by
  cases move with
  | serverEnds status =>
    simp only [meet] at met
    split at met
    · rename_i running
      obtain rfl := Option.some.inj met
      exact .ends status running
    · exact absurd met (by simp)
  | serverReads count | connects connection =>
    simp only [meet] at met
    split at met
    · obtain rfl := Option.some.inj met
      exact .aside (by simp)
    · exact absurd met (by simp)
  | serverWrites bytes | serverComplains bytes | clientWrites bytes =>
    obtain ⟨pipe, _, filled⟩ := Option.bind_eq_some_iff.mp met
    obtain rfl := Option.some.inj filled
    exact .aside (by simp)
  | cancels =>
    obtain rfl := Option.some.inj met
    exact .cancels
  | serverStopsReading | serverStopsWriting failure | serverFallsSilent | clientStopsWriting
  | timePasses time | filesChange disk =>
    obtain rfl := Option.some.inj met
    exact .aside (by simp)

/-- Whatever happens to a session changes it in one of these ways. -/
theorem perform_change {happening : Happening} (performed : state.perform happening = some after) :
    Change state.standing happening after.standing := by
  cases happening with
  | move move => exact meet_change performed
  | turn task =>
    cases task with
    | run => exact proceed_change performed
    | giveUp => exact giveUp_change performed
    | errorRelay =>
      obtain ⟨_, _, _, _, _, _, rfl⟩ := copyErrors_cases performed
      exact .aside nofun
    | outputRelay =>
      obtain ⟨_, _, _, _, _, _, rfl⟩ := copyOutput_cases performed
      exact .aside nofun
    | inputRelay => exact forward_change performed
    | watch => exact watch_change performed
    | wake => exact wake_change performed

end State

end LspProxy.Session
