import LspProxy.Proofs.Relay.Closing
import LspProxy.Proofs.Session.Confinement

/-!
# When the server finds the end of its input

The proxy's way to the server is closed when nobody uses it any more. Over standard streams that is as
soon as the relay of the client's messages has ended. A channel is one connection in both directions, and
the output relay holds on to it, so there it makes a difference how the relay of messages ends: one that
ends in order closes the way to the server itself, and one that fails leaves it open until the output
relay has ended as well (`State.InputDone`). This holds in every state of a session
(`reachable_closesInput`), since the relays only ever go further.

Together with the uses that a relay makes of the server's stream (`Relay.forward_uses`), it says which
servers wait for ever: those on a channel whose client could not be read from or that refused a message.
-/
namespace LspProxy.Session

namespace State

variable {state after : State}

/-- Nothing uses the way to the server any more. -/
def InputDone (state : State) : Prop :=
  state.inputEnded = true ∧ (state.settings.endpoint = .standard ∨ state.outputEnded = true ∨
    state.inputEndedWell = true)

/-- The server finds the end of its input, after all bytes that are on their way, exactly if nothing
uses this way any more. -/
def ClosesInput (state : State) : Prop := state.toServer.writable = false ↔ state.InputDone

/-- A relay that has ended in order has ended. -/
theorem inputEnded_of_well (well : state.inputEndedWell = true) : state.inputEnded = true := by
  unfold inputEndedWell at well
  unfold inputEnded
  split at well
  · rename_i ended
    rw [ended]
  · exact absurd well (by simp)

/-- Closing what nobody uses any more does it to nothing else. -/
theorem closeStreams_closesInput (kept : state.toServer.writable = false → state.InputDone) :
    state.closeStreams.ClosesInput := by
  have same : state.closeStreams.InputDone ↔ state.InputDone := Iff.rfl
  unfold ClosesInput
  rw [same]
  by_cases done : state.InputDone
  · have closed : state.closeStreams.toServer = state.toServer.hangUp := by
      unfold closeStreams
      exact if_pos done
    rw [closed]
    exact iff_of_true rfl done
  · have open_ : state.closeStreams.toServer = state.toServer := by
      unfold closeStreams
      exact if_neg done
    rw [open_]
    exact iff_of_false (fun closed => done (kept closed)) done

/-- The way to the server and the relays are all that matters. -/
theorem ClosesInput.congr (closes : state.ClosesInput) (settings : after.settings = state.settings)
    (writable : after.toServer.writable = state.toServer.writable)
    (output : after.outputRelay = state.outputRelay) (input : after.inputRelay = state.inputRelay) :
    after.ClosesInput := by
  unfold ClosesInput InputDone inputEnded outputEnded inputEndedWell at closes ⊢
  rw [settings, writable, output, input]
  exact closes

/-- A relay of messages that is at work, or has yet to start, uses the way to the server. -/
theorem not_inputDone_of_not_ended (working : state.inputEnded = false) : ¬ state.InputDone := by
  intro done
  rw [done.1] at working
  exact absurd working (by simp)

/-- A turn of the relay of messages, which is at work until then. -/
theorem closesInput_forward (closes : state.ClosesInput) (turn : state.forward = some after) :
    after.ClosesInput := by
  obtain ⟨forwarder, started, cases⟩ := forward_cases turn
  have working : state.inputEnded = false := by
    unfold inputEnded
    obtain ⟨stage, buffer, interceptor, log, totals⟩ := forwarder
    obtain ⟨reading, _⟩ | ⟨batch, sending, _⟩ := cases
    · simp only at reading
      simp [started, reading]
    · simp only at sending
      simp [started, sending]
  have writable : ¬ state.toServer.writable = false :=
    fun closed => not_inputDone_of_not_ended working (closes.mp closed)
  obtain ⟨_, read⟩ | ⟨batch, _, sent⟩ := cases
  · obtain ⟨_, rfl⟩ | ⟨_, client, events, next, rfl⟩ := readMessage_cases read
    · exact closeStreams_closesInput fun closed => absurd closed writable
    · exact closeStreams_closesInput fun closed => absurd closed writable
  · obtain ⟨toServer, disk, events, next, rfl, pushed⟩ := sendBatch_cases sent
    have same : toServer.writable = state.toServer.writable := by
      have kept (reception : Pipe.Reception)
          (found : state.toServer.push batch.rest = (reception, toServer)) :
          toServer.writable = state.toServer.writable := by
        have second : (state.toServer.push batch.rest).2.writable = state.toServer.writable := by
          unfold Pipe.push
          split
          · rfl
          · split <;> rfl
        rwa [found] at second
      obtain ⟨failure, found, _⟩ | ⟨rest, found, _⟩ | ⟨found, _⟩ := pushed
      · exact kept _ found
      · exact kept _ found
      · exact kept _ found
    exact closeStreams_closesInput fun closed => absurd (same.symm.trans closed) writable

/-- A turn of the output relay, which may be its last. -/
theorem closesInput_copyOutput (closes : state.ClosesInput) (turn : state.copyOutput = some after) :
    after.ClosesInput := by
  obtain ⟨count, relay, fromServer, clientOutput, running, _, rfl⟩ := copyOutput_cases turn
  refine closeStreams_closesInput fun closed => ?_
  obtain ⟨ended, separate | output | well⟩ := closes.mp closed
  · exact ⟨ended, .inl separate⟩
  · exact absurd output (by simp [outputEnded, running])
  · exact ⟨ended, .inr (.inr well)⟩

/-- A turn of the run: it leaves the relays alone, or starts them. -/
theorem closesInput_proceeds (closes : state.ClosesInput) (proceeds : Proceeds state after)
    (settings : after.settings = state.settings) : after.ClosesInput := by
  have writable : after.toServer.writable = state.toServer.writable := by rw [proceeds.toServer]
  rcases proceeds.inputRelay with input | ⟨none, forwarder, started, reading⟩
  · rcases proceeds.outputRelay with output | ⟨none, started⟩
    · exact closes.congr settings writable output input
    · have noOutput : state.outputEnded = false := by simp [outputEnded, none]
      have newOutput : after.outputEnded = false := by simp [outputEnded, started]
      unfold ClosesInput InputDone inputEnded inputEndedWell at closes ⊢
      rw [noOutput] at closes
      rw [settings, writable, newOutput, input]
      exact closes
  · have before : ¬ state.InputDone :=
      not_inputDone_of_not_ended (by simp [inputEnded, none])
    have later : ¬ after.InputDone := by
      refine not_inputDone_of_not_ended ?_
      obtain ⟨stage, buffer, interceptor, log, totals⟩ := forwarder
      simp only at reading
      simp [inputEnded, started, reading]
    unfold ClosesInput at closes ⊢
    rw [writable, closes]
    exact iff_of_false before later

theorem closesInput_advance {task : Task} (orderly : state.Orderly) (closes : state.ClosesInput)
    (turn : state.advance task = some after) : after.ClosesInput := by
  have settings := (confined_advance turn).settings
  cases task with
  | run => exact closesInput_proceeds closes (proceed_proceeds orderly turn) settings
  | giveUp => exact closesInput_proceeds closes (giveUp_proceeds orderly turn) settings
  | outputRelay => exact closesInput_copyOutput closes turn
  | inputRelay => exact closesInput_forward closes turn
  | errorRelay =>
    obtain ⟨_, _, _, _, _, _, rfl⟩ := copyErrors_cases turn
    exact closes.congr rfl rfl rfl rfl
  | watch =>
    obtain ⟨_, _, _, rfl, _, _⟩ := watch_cases turn
    exact closes.congr rfl rfl rfl rfl
  | wake =>
    obtain ⟨_, rfl, _⟩ := wake_cases turn
    exact closes.congr rfl rfl rfl rfl

/-- A relay of messages that cannot read from the client ends with the failure. -/
theorem forward_failed {forwarder : Forwarder} {failure : Failure} {buffer : Bytes} {client : Pipe}
    (started : state.inputRelay = some forwarder) (reading : forwarder.stage = .reading)
    (active : state.inputCancelled = false)
    (found : gather forwarder.buffer state.client = (.failed failure, buffer, client)) :
    state.forward = some ({ state with client }.putForwarder
      { forwarder with buffer, stage := .finished (.error failure) }) := by
  simp [forward, started, reading, readMessage, active, found]

/-- In every state that a session comes through, the way to the server is closed exactly if nothing uses
it any more. -/
theorem reachable_closesInput {beginning : Beginning} {prepared : Channel.Prepared} {disk : Disk}
    (reachable : Reachable (beginning.state prepared disk) state) : state.ClosesInput := by
  induction reachable with
  | start => exact iff_of_false (by simp [Beginning.state]) (not_inputDone_of_not_ended rfl)
  | step before step inductionHypothesis =>
    cases step with
    | turn task advanced =>
      exact closesInput_advance (reachable_orderly before) inductionHypothesis advanced
    | move move met =>
      obtain ⟨settings, writable, output, input⟩ := meet_settings met
      exact inductionHypothesis.congr settings writable output input

/-- A server on a channel finds the end of its input while the output relay is at work exactly if the
relay of messages has ended in order. -/
theorem channel_input_closed_iff {beginning : Beginning} {prepared : Channel.Prepared} {disk : Disk}
    (reachable : Reachable (beginning.state prepared disk) state)
    (channel : state.settings.endpoint ≠ .standard) (held : state.outputEnded = false) :
    state.toServer.writable = false ↔ state.inputEndedWell = true := by
  have closes : state.toServer.writable = false ↔ state.InputDone := reachable_closesInput reachable
  rw [closes]
  constructor
  · rintro ⟨_, separate | output | well⟩
    · exact absurd separate channel
    · exact absurd (output.symm.trans held) (by simp)
    · exact well
  · intro well
    exact ⟨inputEnded_of_well well, .inr (.inr well)⟩

end State

open Relay in
/-- A relay of messages closes the server's stream exactly if it ends in order, and then once and by its
last use of it: a relay that fails to read from the client, or to write or flush to the server, does not
close it at all. So a server on a channel, which the output relay holds on to, finds the end of its input
exactly if the relay of messages has ended in order. -/
theorem server_input_closed_exactly_in_order (workspace : Workspace) (outlet : Outlet) (token : Token)
    (source : Source) (beginning : Beginning) (prepared : Channel.Prepared) (disk : Disk)
    (state : State) :
    (let run := outward (forward workspace outlet token source)
      ∃ bodies ending made,
        Frame.Reader.HandsOut { source, token } bodies ending ∧
        let outcomes := treatments { workspace } outlet.log outlet.disk bodies
        Uses outlet.sink (outcomes.flatMap Message.Outcome.calls) run made ∧
        ((∃ totals, run.1 = .ok totals) ↔
          (outlet.sink.deliverEach (outcomes.map Message.Outcome.frames)).1 = .ok () ∧
            ∀ failure, ending ≠ .failed failure) ∧
        (outlet.sink.shutdownFailure = none →
          run.2.seen.count .shut = outlet.sink.seen.count .shut + (if run.1.isOk then 1 else 0))) ∧
    (Reachable (beginning.state prepared disk) state → state.settings.endpoint ≠ .standard →
      state.outputEnded = false →
      (state.toServer.writable = false ↔ state.inputEndedWell = true)) := by
  constructor
  · intro run
    obtain ⟨bodies, ending, made, hands, uses, inOrder⟩ := forward_uses workspace outlet token source
    exact ⟨bodies, ending, made, hands, uses, inOrder, uses.count_shut⟩
  · intro reachable channel held
    exact State.channel_input_closed_iff reachable channel held

/-- A session on a channel whose client cannot be read from. -/
def severed : Beginning where
  settings := .usual (Bytes.ascii "/bin/server") (Bytes.ascii "/work") (.named "channel")
  workspace := {}
  probe := { parent := none, alive := fun _ => true }
  disk := {}
  programFolders := []
  process := 2
  client := { capacity := 100, broken := some (.plain .connectionReset) }

/-- What the server of such a session is connected to. -/
def severedChannel : Channel.Listener := { name := "channel", path := Channel.path "channel", socket := 0 }

/-- A server that waits for ever: the relay of messages has ended, and the way to the server is open. -/
theorem severed_server_waits :
    ∃ state, Reachable (severed.state (.listening severedChannel) {}) state ∧
      state.settings.endpoint ≠ .standard ∧ state.outputEnded = false ∧ state.inputEnded = true ∧
      state.toServer.writable = true := by
  let start := severed.state (.listening severedChannel) {}
  let connected := { start with connection := some (.ok ()) }
  obtain ⟨opening, draining, forwarder, opened, drained, client, active, output, settings, started,
      reading, buffer⟩ :
      ∃ opening draining forwarder, connected.advance .run = some opening ∧
        opening.advance .run = some draining ∧ draining.client = severed.client ∧
        draining.inputCancelled = false ∧ draining.outputRelay = some (.running 0) ∧
        draining.settings = start.settings ∧ draining.inputRelay = some forwarder ∧
        forwarder.stage = .reading ∧ forwarder.buffer = [] :=
    ⟨_, _, _, rfl, rfl, rfl, rfl, rfl, rfl, rfl, rfl, rfl⟩
  have found : gather forwarder.buffer draining.client =
      (.failed (.plain .connectionReset), [], { capacity := 100 }) := by
    rw [buffer, client, gather]
    rfl
  have failed := State.forward_failed started reading active found
  have reachable := (Reachable.start : Reachable start start)
    |>.step (.move (.connects (.ok ())) rfl)
    |>.step (.turn .run opened)
    |>.step (.turn .run drained)
    |>.step (.turn .inputRelay failed)
  have channel : draining.settings.endpoint ≠ .standard := by
    rw [settings]
    exact (by simp : Endpoint.named "channel" ≠ .standard)
  have held : draining.outputEnded = false := by simp [State.outputEnded, output]
  refine ⟨_, reachable, channel, held, rfl, ?_⟩
  have closes := (server_input_closed_exactly_in_order {} { sink := {}, log := {}, disk := {} } .clear []
    severed (.listening severedChannel) {} _).2 reachable channel held
  exact eq_true_of_ne_false fun closed => absurd (closes.mp closed) Bool.false_ne_true

open Relay in
/-- A relay that cannot read from the client returns without closing the server's stream. -/
theorem failed_read_leaves_input_open :
    ¬ ∀ (workspace : Workspace) (outlet : Outlet) (token : Token) (source : Source),
      ∃ calls, Frame.WriterCall.shutdown ∉ calls ∧
        (outward (forward workspace outlet token source)).2 =
          (Frame.performAll outlet.sink (calls ++ [.shutdown])).2 := by
  intro closes
  obtain ⟨calls, opens, closed⟩ := closes {} { sink := {}, log := {}, disk := {} } .clear
    [.failure (.plain .connectionReset)]
  obtain ⟨failure, _⟩ := Sink.performAll_staysOpen {} opens
  have untouched : outward (forward {} { sink := {}, log := {}, disk := {} } .clear
      [.failure (.plain .connectionReset)]) = (.error (.plain .connectionReset), {}) := by
    have read : Frame.Reader.next { source := [.failure (.plain .connectionReset)], token := .clear } =
        (.failed (.plain .connectionReset), { source := [], token := .clear }) := by
      rw [Frame.Reader.next, Frame.Reader.resume.eq_def]
      rfl
    unfold forward
    rw [outward_forwardFrom, read]
    rfl
  rw [Frame.performAll_append, untouched] at closed
  have last := (congrArg Sink.seen closed).trans (congrArg Sink.seen (Frame.perform_shutdown _))
  rw [Sink.shutdown_seen failure] at last
  exact absurd last (by simp)

end LspProxy.Session
