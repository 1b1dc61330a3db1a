import LspProxy.Proofs.Channel.Listening
import LspProxy.Proofs.Session.Confinement
import Mathlib

/-!
# What a session leaves behind

A session that has returned has nothing left that works for it: its server's status has been asked for, it
is cancelled, its relays have ended, and what was prepared for the connection was given up when its run
left the start. All of this is carried by the phase of the run (`reachable_orderly`, `Phase.late`) and by
the one turn that gives up what was prepared, which every way to the end goes through
(`reachable_tidies`).

A session that cannot be started leaves the tree as it was, but for a leftover socket that stood in the
place of its channel (`start_value`). It has no tasks, since there is no state then.
-/
namespace LspProxy.Session

/-! ## Starting -/

/-- What may have become of the files when a session is started, its own socket apart: nothing, or the
clearing of its channel's place. -/
def Beginning.Clears (beginning : Beginning) (cleared : Disk) : Prop :=
  match beginning.settings.endpoint with
  | .standard => cleared = beginning.disk
  | .named name => Channel.Cleared beginning.disk (Channel.path name) cleared

/-- What a session is prepared with: nothing, or a listener whose socket is in place at the path of its
channel. -/
def Beginning.Prepares (beginning : Beginning) (disk : Disk) : Channel.Prepared → Prop
  | .standard => beginning.settings.endpoint = .standard
  | .listening listener => ∃ name, beginning.settings.endpoint = .named name ∧
      listener.path = Channel.path name ∧ listener.isInPlace disk = true

theorem prepare_value (beginning : Beginning) :
    ∃ cleared, beginning.Clears cleared ∧
      match (Channel.prepare beginning.disk beginning.settings.endpoint).value with
      | (.error _, disk) => disk = cleared
      | (.ok prepared, disk) =>
        beginning.Prepares disk prepared ∧ (prepared.release disk).value.root = cleared.root := by
  cases endpoint : beginning.settings.endpoint with
  | standard =>
    refine ⟨beginning.disk, ?_, ?_, rfl⟩
    · simp [Beginning.Clears, endpoint]
    · exact endpoint
  | named name =>
    obtain ⟨cleared, clears, bound⟩ := Channel.bindAt_value beginning.disk name (Channel.path name)
    refine ⟨cleared, by simpa [Beginning.Clears, endpoint] using clears, ?_⟩
    simp only [Channel.prepare, Channel.bind, Log.Logged.value_bind, Log.Logged.value_pure]
    rcases result : (Channel.bindAt beginning.disk name (Channel.path name)).value with
      ⟨fault | listener, disk⟩
    · rw [result] at bound
      exact bound
    · rw [result] at bound
      obtain ⟨path, placed⟩ := bound
      have absolute : listener.path.isAbsolute = true := by
        rw [path]
        exact Channel.path_isAbsolute name
      rw [← path] at placed
      obtain ⟨inPlace, restored⟩ := Channel.release_placeSocket absolute placed
      exact ⟨⟨name, endpoint, path, inPlace⟩, restored⟩

/-- Starting a session prepares the connection and starts the server, or leaves nothing of its own. -/
theorem start_value (beginning : Beginning) :
    ∃ cleared, beginning.Clears cleared ∧
      match (start beginning).value with
      | (.error _, disk) => disk.root = cleared.root
      | (.ok state, disk) =>
        ∃ prepared, beginning.Prepares disk prepared ∧ state = beginning.state prepared disk := by
  obtain ⟨cleared, clears, prepared⟩ := prepare_value beginning
  refine ⟨cleared, clears, ?_⟩
  simp only [start, Log.Logged.value_bind]
  rcases result : (Channel.prepare beginning.disk beginning.settings.endpoint).value with
    ⟨fault | ready, disk⟩
  · rw [result] at prepared
    exact congrArg Disk.root prepared
  · rw [result] at prepared
    obtain ⟨prepares, restored⟩ := prepared
    cases launched : launchFailure? disk beginning.programFolders beginning.settings.program
        beginning.settings.serverArguments with
    | some failure => simpa [launched] using restored
    | none => simpa [launched] using ⟨ready, prepares, rfl⟩

/-! ## Running -/

namespace State

variable {state after : State}

/-- On the way from the start to a state, what was prepared for the connection has been given up, in one
turn of the run. -/
def GaveUp (start : State) (prepared : Channel.Prepared) (state : State) : Prop :=
  ∃ before next, Reachable start before ∧ before.advance .run = some next ∧ Reachable next state ∧
    before.prepared = some prepared ∧ next.prepared = none ∧
    next.disk = (prepared.release before.disk).value

theorem GaveUp.step {start : State} {prepared : Channel.Prepared} (gaveUp : GaveUp start prepared state)
    (step : Step state after) : GaveUp start prepared after := by
  obtain ⟨before, next, reached, turn, onwards, rest⟩ := gaveUp
  exact ⟨before, next, reached, turn, .step onwards step, rest⟩

/-- What is left to tidy up: before the run leaves its start, all that was prepared; after that, nothing.
In a late phase the session is cancelled. -/
structure Tidies (start : State) (prepared : Channel.Prepared) (state : State) : Prop where
  held : state.phase = .starting → state.prepared = some prepared
  gaveUp : state.phase ≠ .starting → GaveUp start prepared state
  late : state.phase.late = true → state.cancelled = true

/-- Everything but the run keeps to that. -/
theorem Onward.tidies {start : State} {prepared : Channel.Prepared} (onward : Onward state after)
    (step : Step state after) (tidies : Tidies start prepared state) : Tidies start prepared after where
  held starting := onward.prepared.trans (tidies.held (onward.phase.symm.trans starting))
  gaveUp begun := (tidies.gaveUp fun starting => begun (onward.phase.trans starting)).step step
  late late := onward.cancelled (tidies.late (onward.phase ▸ late))

/-- So does a turn of the run after its start. -/
theorem Enters.tidies {start : State} {prepared : Channel.Prepared} (enters : Enters state after)
    (begun : state.phase ≠ .starting) (step : Step state after)
    (tidies : Tidies start prepared state) : Tidies start prepared after where
  held starting := absurd starting enters.begun
  gaveUp _ := (tidies.gaveUp begun).step step
  late := enters.late tidies.late

/-- The turn that leaves the start gives up what was prepared. -/
theorem leaveStart_tidies {start : State} {prepared : Channel.Prepared}
    (reachable : Reachable start state) (starting : state.phase = .starting)
    (turn : state.advance .run = some after) (tidies : Tidies start prepared state) :
    Tidies start prepared after := by
  have left : state.leaveStart = some after := by
    change state.proceed = some after at turn
    rwa [proceed, starting] at turn
  obtain ⟨⟨_, _, given, held, none, released⟩, begun, late⟩ := leaveStart_releases left
  obtain rfl : given = prepared := Option.some.inj (held.symm.trans (tidies.held starting))
  exact ⟨fun again => absurd again begun,
    fun _ => ⟨state, after, reachable, turn, .start, held, none, released⟩, late⟩

/-- In every state that a session comes through, what was prepared is at hand or has been given up. -/
theorem reachable_tidies {beginning : Beginning} {prepared : Channel.Prepared} {disk : Disk}
    (reachable : Reachable (beginning.state prepared disk) state) :
    Tidies (beginning.state prepared disk) prepared state := by
  induction reachable with
  | start => exact ⟨fun _ => rfl, fun begun => absurd rfl begun, nofun⟩
  | @step state after before step tidies =>
    cases step with
    | move move met => exact (onward_meet met).tidies (.move move met) tidies
    | turn task advanced =>
      have step : Step state after := .turn task advanced
      cases task with
      | run =>
        by_cases starting : state.phase = .starting
        · exact leaveStart_tidies before starting advanced tidies
        · exact (proceed_enters starting advanced).tidies starting step tidies
      | giveUp =>
        have begun : state.phase ≠ .starting := by
          intro starting
          have idle : state.giveUp = none := by simp [giveUp, starting]
          exact absurd (idle.symm.trans advanced) nofun
        exact (giveUp_enters advanced).tidies begun step tidies
      | errorRelay => exact (onward_copyErrors advanced).tidies step tidies
      | outputRelay => exact (onward_copyOutput advanced).tidies step tidies
      | inputRelay => exact (onward_forward advanced).tidies step tidies
      | watch => exact (onward_watch advanced).tidies step tidies
      | wake => exact (onward_wake advanced).tidies step tidies

/-- Giving a listener up removes its own socket, if that is still in place, and touches nothing
otherwise. -/
theorem release_removes {listener : Channel.Listener} {name : String} {before after : Disk}
    (path : listener.path = Channel.path name) (distinct : before.root.Distinct)
    (released : after = (listener.release before).value) :
    if listener.isInPlace before then
      before.remove listener.path = .ok after ∧ listener.isInPlace after = false
    else after = before := by
  have absolute : listener.path.isAbsolute = true := by
    rw [path]
    exact Channel.path_isAbsolute name
  rw [released]
  split
  · rename_i owned
    exact Channel.release_owned absolute distinct owned
  · rename_i foreign
    exact Channel.release_foreign (Bool.eq_false_iff.mpr foreign)

end State

/-- What a session leaves behind, over either endpoint, whatever happens around it and in whatever order.

If it has been started, and its run returns at all, then the server's status has been asked for, the
session is cancelled, and every relay that was started has ended. On the way, the run has given up what was
prepared for the connection; if that was a channel, its socket was in place to begin with, and was removed
then if it still was in place. A file system in which names repeat in a folder is left out here.

No turn of a session cancels the proxy around it, or puts a socket into the file system.

If it cannot be started, there is nothing but the files, and of these it has changed nothing, unless a
leftover socket stood in the place of its channel, which is gone. -/
theorem session_cleans_up (beginning : Beginning) :
    ∃ cleared, beginning.Clears cleared ∧
      match (start beginning).value with
      | (.error _, disk) => disk.root = cleared.root
      | (.ok state, disk) =>
        (∃ prepared, beginning.Prepares disk prepared ∧
          ∀ after result, Reachable state after → after.phase = .returned result →
            after.server.Reaped ∧ after.cancelled = true ∧ after.Silent ∧
            ∃ before next, Reachable state before ∧ before.advance .run = some next ∧
              Reachable next after ∧ before.prepared = some prepared ∧ next.prepared = none ∧
              match prepared with
              | .standard => next.disk = before.disk
              | .listening listener => before.disk.root.Distinct →
                if listener.isInPlace before.disk then
                  before.disk.remove listener.path = .ok next.disk ∧
                    listener.isInPlace next.disk = false
                else next.disk = before.disk) ∧
        ∀ before task next, Reachable state before → before.advance task = some next →
          next.outerCancelled = before.outerCancelled ∧ before.disk.Spares next.disk := by
  obtain ⟨cleared, clears, begun⟩ := start_value beginning
  refine ⟨cleared, clears, ?_⟩
  rcases started : (start beginning).value with ⟨fault | state, disk⟩
  · rw [started] at begun
    exact begun
  · rw [started] at begun
    obtain ⟨prepared, prepares, rfl⟩ := begun
    refine ⟨⟨prepared, prepares, ?_⟩, ?_⟩
    · intro after result reachable returned
      have orderly := State.reachable_orderly reachable
      unfold State.Orderly at orderly
      rw [returned] at orderly
      obtain ⟨silent, reaped⟩ := orderly
      have tidies := State.reachable_tidies reachable
      have late : after.phase.late = true := by
        rw [returned]
        rfl
      have gaveUp := tidies.gaveUp (by rw [returned]; exact nofun)
      obtain ⟨before, next, reached, turn, onwards, held, none, released⟩ := gaveUp
      refine ⟨reaped, tidies.late late, silent, before, next, reached, turn, onwards, held, none, ?_⟩
      cases prepared with
      | standard => exact released
      | listening listener =>
        obtain ⟨name, _, path, _⟩ := prepares
        exact fun distinct => State.release_removes path distinct released
    · intro before task next _ turn
      have confined := State.confined_advance turn
      exact ⟨confined.outerCancelled, confined.sockets⟩

/-- A tree with a program and a place for channels. -/
def equippedRoot : Folder :=
  .folder (Bytes.ascii "bin") true (.leaf (Bytes.ascii "server") (.file [] true) .empty)
    (.folder (Bytes.ascii "tmp") true .empty .empty)

/-- A session over a channel that can be started there. -/
def equipped : Beginning where
  settings := { Settings.usual (Bytes.ascii "/bin/server") (Bytes.ascii "/work") (.named "c") with
    parentInterval := none }
  workspace := {}
  probe := { parent := none, alive := fun _ => true }
  disk := { root := equippedRoot }
  programFolders := []
  process := 2
  client := { capacity := 100 }

/-- This session, cancelled while it waits for the server to connect. -/
theorem equipped_session_cleans_up :
    ∃ state disk after, (start equipped).value = (.ok state, disk) ∧ Reachable state after ∧
      after.phase = .returned (.ok .cancelled) ∧ after.server.Reaped ∧ after.cancelled = true ∧
      after.Silent := by
  have starts : (match (start equipped).value.1 with | .ok _ => true | .error _ => false) = true := by
    cbv
  obtain ⟨_, _, cleans⟩ := session_cleans_up equipped
  obtain ⟨_, _, begun⟩ := start_value equipped
  rcases started : (start equipped).value with ⟨fault | state, disk⟩
  · rw [started] at starts
    exact absurd starts Bool.false_ne_true
  · rw [started] at cleans begun
    obtain ⟨prepared, prepares, rfl⟩ := begun
    cases prepared with
    | standard => exact absurd prepares (by simp : Endpoint.named "c" ≠ .standard)
    | listening listener =>
      let start := equipped.state (.listening listener) disk
      obtain ⟨stopping, closing, silent, concluding, after, stopped, closed, silenced, concluded,
          returned, phase⟩ :
          ∃ stopping closing silent concluding after,
            State.advance { start with outerCancelled := true } .run = some stopping ∧
            stopping.advance .run = some closing ∧ closing.advance .errorRelay = some silent ∧
            silent.advance .run = some concluding ∧ concluding.advance .run = some after ∧
            after.phase = .returned (.ok .cancelled) :=
        ⟨_, _, _, _, _, rfl, rfl, rfl, rfl, rfl, rfl⟩
      have reachable := (Reachable.start : Reachable start start)
        |>.step (.move .cancels rfl)
        |>.step (.turn .run stopped)
        |>.step (.turn .run closed)
        |>.step (.turn .errorRelay silenced)
        |>.step (.turn .run concluded)
        |>.step (.turn .run returned)
      obtain ⟨⟨_, _, ends⟩, _⟩ := cleans
      obtain ⟨reaped, cancelled, silent, _⟩ := ends after _ reachable phase
      exact ⟨start, disk, after, rfl, reachable, phase, reaped, cancelled, silent⟩

end LspProxy.Session
