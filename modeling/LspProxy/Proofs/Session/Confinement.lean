import LspProxy.Proofs.Disk.Sockets
import LspProxy.Proofs.Session.Phases

/-!
# What no turn does

Whatever the tasks of a session come to, none of them changes its settings, none cancels the proxy around
it, and none puts a socket into the file system (`confined_advance`). Only the surroundings of a session
do such things, by a cancellation from outside or a change of the files. The settings stay as they are in
any case (`meet_settings`).

Two turns of the run deserve a closer look. The one that leaves the start gives up what was prepared for
the connection (`leaveStart_releases`); no other turn touches it. And from some phases on the session is
cancelled (`Phase.late`), on every way to the end.
-/
namespace LspProxy.Session

/-- The phases that a run enters only in a session that is cancelled. -/
def Phase.late : Phase → Bool
  | .stopping .cancelled | .closing (.fault _) | .closing .cancelled | .stoppingLate | .concluding _
  | .returned _ => true
  | _ => false

namespace State

variable {state after : State}

/-- What all turns of a session leave alone. -/
structure Confined (before after : State) : Prop where
  settings : after.settings = before.settings
  outerCancelled : after.outerCancelled = before.outerCancelled
  sockets : before.disk.Spares after.disk

/-- What all turns but one leave alone: what was prepared for the connection as well. A session that is
cancelled stays so. -/
structure Settled (before after : State) : Prop extends Confined before after where
  prepared : after.prepared = before.prepared
  cancelled : before.cancelled = true → after.cancelled = true

theorem Confined.trans {middle : State} (first : Confined state middle)
    (second : Confined middle after) : Confined state after where
  settings := second.settings.trans first.settings
  outerCancelled := second.outerCancelled.trans first.outerCancelled
  sockets := first.sockets.trans second.sockets

theorem Settled.trans {middle : State} (first : Settled state middle)
    (second : Settled middle after) : Settled state after where
  toConfined := first.toConfined.trans second.toConfined
  prepared := second.prepared.trans first.prepared
  cancelled := second.cancelled ∘ first.cancelled

/-! ## Parts of the run -/

theorem settled_add (state : State) (events : List Log.Event) : Settled state (state.add events) :=
  ⟨⟨rfl, rfl, .refl _⟩, rfl, id⟩

theorem settled_phase (state : State) (phase : Phase) : Settled state { state with phase } :=
  ⟨⟨rfl, rfl, .refl _⟩, rfl, id⟩

theorem cancelled_cancel (state : State) : state.cancel.cancelled = true := by
  simp [cancel, cancelled]

/-- A session cancels itself alone. -/
theorem settled_cancel (state : State) : Settled state state.cancel :=
  ⟨⟨rfl, rfl, .refl _⟩, rfl, fun _ => cancelled_cancel state⟩

theorem settled_kill (state : State) : Settled state state.kill := by
  unfold kill
  split
  · exact ⟨⟨rfl, rfl, .refl _⟩, rfl, id⟩
  · exact ⟨⟨rfl, rfl, .refl _⟩, rfl, id⟩

theorem settled_reap? {status : ExitStatus} (reaped : state.reap? = some (status, after)) :
    Settled state after := by
  unfold reap? at reaped
  split at reaped
  · obtain ⟨_, rfl⟩ := Prod.mk.inj (Option.some.inj reaped)
    exact ⟨⟨rfl, rfl, .refl _⟩, rfl, id⟩
  · exact absurd reaped (by simp)

theorem settled_reapStopped? (reaped : state.reapStopped? = some after) : Settled state after := by
  obtain ⟨⟨status, middle⟩, found, reported⟩ := Option.bind_eq_some_iff.mp reaped
  obtain rfl := Option.some.inj reported
  exact (settled_reap? found).trans (settled_add middle _)

/-- Of the files, starting the relays touches the log alone. -/
theorem settled_startRelays (state : State) : Settled state state.startRelays :=
  ⟨⟨rfl, rfl, Relay.MessageLog.start_spares _ _ _⟩, rfl, id⟩

theorem kill_disk (state : State) : state.kill.disk = state.disk := by
  unfold kill
  split <;> rfl

theorem reap?_disk {status : ExitStatus} (reaped : state.reap? = some (status, after)) :
    after.disk = state.disk := by
  unfold reap? at reaped
  split at reaped
  · obtain ⟨_, rfl⟩ := Prod.mk.inj (Option.some.inj reaped)
    rfl
  · exact absurd reaped (by simp)

/-! ## Giving up what was prepared -/

/-- What was prepared for the connection is given up, and nothing else happens to the files. -/
structure Releases (before after : State) : Prop where
  confined : Confined before after
  cancelled : before.cancelled = true → after.cancelled = true
  released : ∃ prepared, before.prepared = some prepared ∧ after.prepared = none ∧
    after.disk = (prepared.release before.disk).value

/-- It may be done after something that leaves the files alone. -/
theorem Releases.behind {middle : State} (settled : Settled state middle)
    (disk : middle.disk = state.disk) (releases : Releases middle after) : Releases state after := by
  obtain ⟨confined, cancelled, prepared, held, none, released⟩ := releases
  refine ⟨settled.toConfined.trans confined, cancelled ∘ settled.cancelled, prepared, ?_, none, ?_⟩
  · rw [← settled.prepared, held]
  · rw [released, disk]

/-- And before. -/
theorem Releases.before {middle : State} (releases : Releases state middle)
    (settled : Settled middle after) (disk : after.disk = middle.disk) : Releases state after := by
  obtain ⟨confined, cancelled, prepared, held, none, released⟩ := releases
  exact ⟨confined.trans settled.toConfined, settled.cancelled ∘ cancelled, prepared, held,
    settled.prepared.trans none, disk.trans released⟩

theorem release_releases {prepared : Channel.Prepared} (held : state.prepared = some prepared) :
    Releases state state.release := by
  unfold release
  rw [held]
  exact ⟨⟨rfl, rfl, prepared.release_spares state.disk⟩, id, prepared, held, rfl, rfl⟩

/-- The turn that ends the start does it, whatever ends the start. It ends the start because of a
cancellation only if there is one. -/
theorem leaveStart_releases (turn : state.leaveStart = some after) :
    Releases state after ∧ after.phase ≠ .starting ∧
      (after.phase.late = true → after.cancelled = true) := by
  obtain ⟨prepared, held, turn⟩ := Option.bind_eq_some_iff.mp turn
  split at turn
  · rename_i attempt _
    have noted := settled_add state attempt.events
    have released := (release_releases (noted.prepared.trans held)).behind noted rfl
    split at turn
    · obtain rfl := Option.some.inj turn
      exact ⟨released.before (settled_phase _ _) rfl, nofun, nofun⟩
    · obtain rfl := Option.some.inj turn
      have killed := released.before (settled_kill _) (kill_disk _)
      exact ⟨killed.before (settled_phase _ _) rfl, nofun, nofun⟩
  · have released := release_releases held
    split at turn
    · rename_i status middle found
      obtain rfl := Option.some.inj turn
      have reaped := released.before (settled_reap? found) (reap?_disk found)
      exact ⟨(reaped.before (settled_add middle _) rfl).before (settled_phase _ _) rfl, nofun, nofun⟩
    · split at turn
      · rename_i stopped
        obtain rfl := Option.some.inj turn
        have killed := released.before (settled_kill _) (kill_disk _)
        exact ⟨killed.before (settled_phase _ _) rfl, nofun, fun _ => killed.cancelled stopped⟩
      · exact absurd turn (by simp)

/-! ## The run -/

/-- What a turn of the run does that enters a phase after the start. If the session has been cancelled in
a late phase before, it is so in a late phase now. -/
structure Enters (before after : State) : Prop extends Settled before after where
  late : (before.phase.late = true → before.cancelled = true) →
    after.phase.late = true → after.cancelled = true
  begun : after.phase ≠ .starting

/-- A phase that is no late one. -/
theorem Enters.early {middle : State} (settled : Settled state middle) (phase : Phase)
    (begun : phase ≠ .starting) (early : phase.late = false) : Enters state { middle with phase } where
  toSettled := settled.trans (settled_phase middle phase)
  late := fun _ late => absurd (early.symm.trans late) nofun
  begun := begun

/-- A phase after another late one. -/
theorem Enters.later {middle : State} (settled : Settled state middle) (phase : Phase)
    (begun : phase ≠ .starting) (late : state.phase.late = true) : Enters state { middle with phase } where
  toSettled := settled.trans (settled_phase middle phase)
  late := fun kept _ => settled.cancelled (kept late)
  begun := begun

/-- A phase in a session that is found cancelled. -/
theorem Enters.stopped {middle : State} (settled : Settled state middle) (phase : Phase)
    (begun : phase ≠ .starting) (cancelled : middle.cancelled = true) :
    Enters state { middle with phase } where
  toSettled := settled.trans (settled_phase middle phase)
  late := fun _ _ => cancelled
  begun := begun

/-- A phase in a session that the turn has cancelled. -/
theorem Enters.cancelling {middle : State} (settled : Settled state middle) (phase : Phase)
    (begun : phase ≠ .starting) : Enters state { middle.cancel with phase } :=
  .stopped (settled.trans (settled_cancel middle)) phase begun (cancelled_cancel middle)

theorem conclude_enters {status : Option ExitStatus} (concluding : state.phase = .concluding status)
    (turn : state.conclude status = some after) : Enters state after := by
  have concluded (events : List Log.Event) (result : Except Fault Outcome) :
      Enters state { state.add events with phase := .returned result } :=
    .later (settled_add state events) _ nofun (by rw [concluding]; rfl)
  unfold conclude at turn
  dsimp only at turn
  split at turn
  · obtain rfl := Option.some.inj turn
    exact concluded _ _
  · obtain rfl := Option.some.inj turn
    exact concluded _ _
  · exact absurd turn (by simp)

/-- Every turn of the run after its start. -/
theorem proceed_enters (begun : state.phase ≠ .starting) (turn : state.proceed = some after) :
    Enters state after := by
  unfold proceed at turn
  cases phase : state.phase with
  | starting => exact absurd phase begun
  | stopping setback =>
    simp only [phase] at turn
    obtain ⟨middle, stopped, turn⟩ := Option.bind_eq_some_iff.mp turn
    obtain rfl := Option.some.inj turn
    have reaped := settled_reapStopped? stopped
    cases setback with
    | fault fault => exact .cancelling reaped _ nofun
    | exited status => exact .early reaped _ nofun rfl
    | cancelled => exact .later reaped _ nofun (by rw [phase]; rfl)
  | closing setback =>
    simp only [phase] at turn
    obtain ⟨middle, joined, turn⟩ := Option.bind_eq_some_iff.mp turn
    obtain ⟨_, events, rfl⟩ := joinErrors?_cases joined
    have reported := settled_add state events
    cases setback with
    | fault fault =>
      obtain rfl := Option.some.inj turn
      exact .later reported _ nofun (by rw [phase]; rfl)
    | exited status =>
      obtain rfl := Option.some.inj turn
      exact .cancelling reported _ nofun
    | cancelled =>
      obtain rfl := Option.some.inj turn
      exact .later reported _ nofun (by rw [phase]; rfl)
  | opening =>
    simp only [phase] at turn
    obtain rfl := Option.some.inj turn
    exact .early (settled_startRelays state) _ nofun rfl
  | draining =>
    simp only [phase] at turn
    obtain ⟨middle, joined, turn⟩ := Option.bind_eq_some_iff.mp turn
    obtain ⟨_, events, rfl⟩ := joinOutput?_cases joined
    obtain rfl := Option.some.inj turn
    exact .early (settled_add state events) _ nofun rfl
  | drainingErrors =>
    simp only [phase] at turn
    obtain ⟨middle, joined, turn⟩ := Option.bind_eq_some_iff.mp turn
    obtain ⟨_, events, rfl⟩ := joinErrors?_cases joined
    obtain rfl := Option.some.inj turn
    exact ⟨⟨⟨rfl, rfl, .refl _⟩, rfl, id⟩, nofun, nofun⟩
  | drainingInput =>
    simp only [phase] at turn
    obtain ⟨middle, joined, turn⟩ := Option.bind_eq_some_iff.mp turn
    obtain ⟨_, events, rfl⟩ := joinInput?_cases joined
    obtain rfl := Option.some.inj turn
    exact .early (settled_add state events) _ nofun rfl
  | waiting =>
    simp only [phase] at turn
    obtain ⟨⟨status, middle⟩, found, turn⟩ := Option.bind_eq_some_iff.mp turn
    obtain rfl := Option.some.inj turn
    exact .cancelling (settled_reap? found) _ nofun
  | stoppingLate =>
    simp only [phase] at turn
    obtain ⟨middle, stopped, turn⟩ := Option.bind_eq_some_iff.mp turn
    obtain rfl := Option.some.inj turn
    exact .cancelling (settled_reapStopped? stopped) _ nofun
  | concluding status =>
    simp only [phase] at turn
    exact conclude_enters phase turn
  | returned result =>
    simp only [phase] at turn
    exact absurd turn (by simp)

theorem giveUp_enters (turn : state.giveUp = some after) : Enters state after := by
  unfold giveUp at turn
  split at turn
  · split at turn
    · rename_i stopped
      obtain rfl := Option.some.inj turn
      have killed := settled_kill state
      exact .stopped killed _ nofun (killed.cancelled stopped)
    · exact absurd turn (by simp)
  · exact absurd turn (by simp)

/-! ## All turns -/

/-- A turn of the relay of the client's messages: of the files it touches the log alone. -/
theorem confined_sendBatch {forwarder : Forwarder} {batch : Batch}
    (turn : state.sendBatch forwarder batch = some after) : Confined state after := by
  unfold sendBatch at turn
  split at turn
  · exact absurd turn (by simp)
  · obtain rfl := Option.some.inj turn
    exact ⟨rfl, rfl, .refl _⟩
  · obtain rfl := Option.some.inj turn
    exact ⟨rfl, rfl, .refl _⟩
  · obtain rfl := Option.some.inj turn
    exact ⟨rfl, rfl, Relay.MessageLog.record_spares _ _ _⟩

theorem confined_forward (turn : state.forward = some after) : Confined state after := by
  obtain ⟨forwarder, _, ⟨_, read⟩ | ⟨batch, _, sent⟩⟩ := forward_cases turn
  · obtain ⟨_, rfl⟩ | ⟨_, client, events, next, rfl⟩ := readMessage_cases read
    · exact ⟨rfl, rfl, .refl _⟩
    · exact ⟨rfl, rfl, .refl _⟩
  · exact confined_sendBatch sent

/-- No turn of any task changes the settings, cancels the proxy, or makes a socket. -/
theorem confined_advance {task : Task} (turn : state.advance task = some after) :
    Confined state after := by
  cases task with
  | run =>
    by_cases begun : state.phase = .starting
    · have left : state.leaveStart = some after := by
        change state.proceed = some after at turn
        rwa [proceed, begun] at turn
      exact (leaveStart_releases left).1.confined
    · exact (proceed_enters begun turn).toConfined
  | giveUp => exact (giveUp_enters turn).toConfined
  | errorRelay =>
    obtain ⟨_, _, _, _, _, _, rfl⟩ := copyErrors_cases turn
    exact ⟨rfl, rfl, .refl _⟩
  | outputRelay =>
    obtain ⟨_, _, _, _, _, _, rfl⟩ := copyOutput_cases turn
    exact ⟨rfl, rfl, .refl _⟩
  | inputRelay => exact confined_forward turn
  | watch =>
    obtain ⟨_, _, _, rfl, _, _⟩ := watch_cases turn
    exact ⟨rfl, rfl, .refl _⟩
  | wake =>
    obtain ⟨_, rfl, _⟩ := wake_cases turn
    exact ⟨rfl, rfl, .refl _⟩

/-- What the surroundings of a session leave alone: its settings, and the way to the server but for what
stands in it and whether it is read. -/
theorem meet_settings {move : Move} (met : state.meet move = some after) :
    after.settings = state.settings ∧ after.toServer.writable = state.toServer.writable ∧
      after.outputRelay = state.outputRelay ∧ after.inputRelay = state.inputRelay := by
  cases move with
  | serverEnds status =>
    simp only [meet] at met
    split at met
    · obtain rfl := Option.some.inj met
      exact ⟨rfl, rfl, rfl, rfl⟩
    · exact absurd met (by simp)
  | serverReads count =>
    simp only [meet] at met
    split at met
    · obtain rfl := Option.some.inj met
      refine ⟨rfl, ?_, rfl, rfl⟩
      unfold Pipe.fetch
      split <;> rfl
    · exact absurd met (by simp)
  | connects connection =>
    simp only [meet] at met
    split at met
    · obtain rfl := Option.some.inj met
      exact ⟨rfl, rfl, rfl, rfl⟩
    · exact absurd met (by simp)
  | serverWrites bytes | serverComplains bytes | clientWrites bytes =>
    obtain ⟨pipe, _, filled⟩ := Option.bind_eq_some_iff.mp met
    obtain rfl := Option.some.inj filled
    exact ⟨rfl, rfl, rfl, rfl⟩
  | cancels | serverStopsReading | serverStopsWriting failure | serverFallsSilent | clientStopsWriting
  | timePasses time | filesChange disk =>
    obtain rfl := Option.some.inj met
    exact ⟨rfl, rfl, rfl, rfl⟩

end State

end LspProxy.Session
