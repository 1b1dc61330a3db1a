import LspProxy.Proofs.Frame.Pieces
import LspProxy.Proofs.Message.Classification
import LspProxy.Proofs.Relay.Batches
import LspProxy.Proofs.Session.Cancellation

/-!
# Sessions at a standstill

A session that is held up stays so, through all turns and moves, until the server reads from its input,
closes it or ends (`heldUp_persists`): the session does not stop the server meanwhile. And sessions do come
to a standstill. Any message of the client whose frame is longer than the pipe will do
(`overlong_message_holds_up`): the relay reads it whole, and once it writes, only the server can make the
room that is missing.
-/
namespace LspProxy

namespace Pipe

/-- A read takes what it finds off the content; it finds nothing only if there is none. -/
theorem fetch_content (pipe : Pipe) (limit : Nat) :
    match pipe.fetch limit with
    | (.data bytes, after) => bytes ++ after.content = pipe.content
    | _ => pipe.content = [] := by
  unfold fetch
  cases content : pipe.content with
  | cons first others => simp
  | nil => cases pipe.broken <;> cases pipe.writable <;> simp

end Pipe

namespace Session

/-- The server reads from its input, closes it, or ends. -/
def Move.engages : Move → Prop
  | .serverReads _ | .serverStopsReading | .serverEnds _ => True
  | _ => False

namespace State

variable {state after : State}

/-- A session is held up by few things. -/
theorem HeldUp.congr (held : state.HeldUp) (phase : after.phase = state.phase)
    (input : after.inputRelay = state.inputRelay) (room : after.toServer.room = state.toServer.room)
    (readable : after.toServer.readable = state.toServer.readable) : after.HeldUp where
  draining := phase.trans held.draining
  readable := readable.trans held.readable
  full := room.trans held.full
  sending := input ▸ held.sending

/-- The run and the relay of messages of a session that is held up have no turn. -/
theorem HeldUp.waits (held : state.HeldUp) :
    state.proceed = none ∧ state.giveUp = none ∧ state.forward = none := by
  obtain ⟨draining, readable, full, ⟨stage, buffer, interceptor, log, totals⟩, batch, started, sending,
    remains⟩ := held
  obtain rfl := sending
  have blocked := Pipe.push_blocked_iff.mpr ⟨readable, full, remains⟩
  refine ⟨?_, ?_, ?_⟩
  · simp [proceed, draining, joinInput?, started]
  · simp [giveUp, draining]
  · simp only [forward, started, Option.bind_eq_bind, Option.bind_some, sendBatch]
    split
    · rfl
    · rename_i pushed
      exact absurd blocked (by simp [pushed])
    · rename_i pushed
      exact absurd blocked (by simp [pushed])
    · rename_i pushed
      exact absurd blocked (by simp [pushed])

theorem heldUp_meet {move : Move} (held : state.HeldUp) (idle : ¬ move.engages)
    (met : state.meet move = some after) : after.HeldUp ∧ after.server = state.server := by
  cases move with
  | serverReads count | serverStopsReading | serverEnds status => exact absurd trivial idle
  | connects connection =>
    simp only [meet] at met
    split at met
    · obtain rfl := Option.some.inj met
      exact ⟨held.congr rfl rfl rfl rfl, rfl⟩
    · exact absurd met (by simp)
  | serverWrites bytes | serverComplains bytes | clientWrites bytes =>
    obtain ⟨pipe, _, filled⟩ := Option.bind_eq_some_iff.mp met
    obtain rfl := Option.some.inj filled
    exact ⟨held.congr rfl rfl rfl rfl, rfl⟩
  | serverStopsWriting failure | serverFallsSilent | clientStopsWriting | cancels | timePasses time
  | filesChange disk =>
    obtain rfl := Option.some.inj met
    exact ⟨held.congr rfl rfl rfl rfl, rfl⟩

theorem heldUp_advance {task : Task} (held : state.HeldUp) (turn : state.advance task = some after) :
    after.HeldUp ∧ after.server = state.server := by
  obtain ⟨run, giveUp, forward⟩ := held.waits
  cases task with
  | run => exact absurd (run.symm.trans turn) (by simp)
  | giveUp => exact absurd (giveUp.symm.trans turn) (by simp)
  | inputRelay => exact absurd (forward.symm.trans turn) (by simp)
  | errorRelay =>
    obtain ⟨count, relay, errors, clientErrors, _, _, rfl⟩ := copyErrors_cases turn
    exact ⟨held.congr rfl rfl rfl rfl, rfl⟩
  | outputRelay =>
    obtain ⟨count, relay, fromServer, clientOutput, _, _, rfl⟩ := copyOutput_cases turn
    obtain ⟨room, readable⟩ := closeStreams_room
      { state with outputRelay := some relay, fromServer, clientOutput }
    exact ⟨held.congr rfl rfl room readable, rfl⟩
  | watch =>
    obtain ⟨events, monitor, ownCancelled, rfl, _, _⟩ := watch_cases turn
    exact ⟨held.congr rfl rfl rfl rfl, rfl⟩
  | wake =>
    obtain ⟨monitor, rfl, _⟩ := wake_cases turn
    exact ⟨held.congr rfl rfl rfl rfl, rfl⟩

/-- The states that a session comes through while the server does nothing of the kind. -/
inductive Endures (state : State) : State → Prop where
  | start : Endures state state
  | turn {middle after : State} (before : Endures state middle) (task : Task)
      (advanced : middle.advance task = some after) : Endures state after
  | move {middle after : State} (before : Endures state middle) (move : Move) (idle : ¬ move.engages)
      (met : middle.meet move = some after) : Endures state after

/-- A session that is held up stays so, and does not stop its server, until the server reads from its
input, closes it or ends. -/
theorem heldUp_persists (held : state.HeldUp) (endures : Endures state after) :
    after.HeldUp ∧ after.server = state.server := by
  induction endures with
  | start => exact ⟨held, rfl⟩
  | turn _ task advanced inductionHypothesis =>
    obtain ⟨held', same⟩ := inductionHypothesis
    obtain ⟨held'', same'⟩ := heldUp_advance held' advanced
    exact ⟨held'', same'.trans same⟩
  | move _ move idle met inductionHypothesis =>
    obtain ⟨held', same⟩ := inductionHypothesis
    obtain ⟨held'', same'⟩ := heldUp_meet held' idle met
    exact ⟨held'', same'.trans same⟩

end State

/-! ## Overlong messages -/

/-- The bytes of a frame, wherever they are cut, come to its message: nothing before the last of them
does, and then all of them do. -/
theorem gather_frame {body : Bytes} (fits : Frame.Fits body) {buffer : Bytes} {client : Pipe}
    (whole : buffer ++ client.content = Frame.encode body) :
    ∃ after, gather buffer client = (.message body, [], after) := by
  have alone := Frame.decode_encode_append fits []
  rw [List.append_nil] at alone
  have complete {buffer content : Bytes} (undecoded : Frame.decode buffer = none)
      (whole : buffer ++ content = Frame.encode body) : content ≠ [] := by
    rintro rfl
    rw [List.append_nil] at whole
    rw [whole, alone] at undecoded
    exact absurd undecoded (by simp)
  fun_induction gather buffer client with
  | case1 buffer client body' rest decoded =>
    have same := Frame.decode_append decoded client.content
    rw [whole, alone, Option.some.injEq, Prod.mk.injEq] at same
    obtain ⟨rfl, nothing⟩ := same
    obtain ⟨rfl, _⟩ := List.append_eq_nil_iff.mp nothing.symm
    exact ⟨client, rfl⟩
  | case2 buffer client undecoded after read =>
    have content := client.fetch_content Relay.portion
    rw [read] at content
    exact absurd content (complete undecoded whole)
  | case3 buffer client undecoded after read =>
    have content := client.fetch_content Relay.portion
    rw [read] at content
    exact absurd content (complete undecoded whole)
  | case4 buffer client undecoded failure after read =>
    have content := client.fetch_content Relay.portion
    rw [read] at content
    exact absurd content (complete undecoded whole)
  | case5 buffer client undecoded bytes after read _ inductionHypothesis =>
    have content := client.fetch_content Relay.portion
    rw [read] at content
    exact inductionHypothesis (by rw [List.append_assoc, content, whole])

namespace State

variable {state after : State}

/-- A message of neither kind is read whole and is then about to be written as it came. -/
theorem readMessage_plain {forwarder : Forwarder} {body buffer : Bytes} {client : Pipe}
    (plain : Message.intercepted? body = none) (active : state.inputCancelled = false)
    (found : gather forwarder.buffer state.client = (.message body, buffer, client)) :
    ∃ after, state.readMessage forwarder = some after ∧ after.server = state.server ∧
      after.toServer.room = state.toServer.room ∧ after.toServer.readable = state.toServer.readable ∧
      ∃ next, after.inputRelay = some next ∧ next.stage = .sending (.ofOutcome { forward := body }) := by
  have treated := Message.Interceptor.process_plain plain state.disk forwarder.interceptor
  unfold readMessage
  simp only [active, Bool.false_eq_true, if_false, found, treated]
  refine ⟨_, rfl, rfl, ?_, ?_, _, rfl, rfl⟩
  · exact (closeStreams_room _).1
  · exact (closeStreams_room _).2

/-- A session comes through the states that turns lead to. -/
theorem Turns.reachable {count : Nat} (turns : Turns state count after) : Reachable state after := by
  induction turns with
  | none => exact .start
  | turn _ task advanced inductionHypothesis => exact .step inductionHypothesis (.turn task advanced)

/-- A client's message whose frame is longer than the pipe to the server brings a session over standard
streams to a standstill, if the session is cancelled while the server does not read: the server runs on,
and no task of the session has a turn. -/
theorem overlong_message_holds_up (beginning : Beginning) (disk : Disk) {body : Bytes}
    (fits : Frame.Fits body) (plain : Message.intercepted? body = none)
    (sent : beginning.client.content = Frame.encode body)
    (long : pipeCapacity < (Frame.encode body).length) :
    ∃ state, Reachable (beginning.state .standard disk) state ∧ state.cancelled = true ∧
      state.HeldUp ∧ ¬ state.Advances ∧ state.server = .running := by
  -- the server is connected, and the relays start
  obtain ⟨opened, first, opening, client, toServer, server, active⟩ :
      ∃ opened, (beginning.state .standard disk).advance .run = some opened ∧
        opened.phase = .opening ∧ opened.client = beginning.client ∧
        opened.toServer = { capacity := pipeCapacity } ∧ opened.server = .running ∧
        opened.inputCancelled = false :=
    ⟨_, rfl, rfl, rfl, rfl, rfl, rfl⟩
  obtain ⟨relaying, second, client', toServer', server', active', forwarder, started, reading, empty⟩ :
      ∃ relaying, opened.advance .run = some relaying ∧ relaying.client = opened.client ∧
        relaying.toServer = opened.toServer ∧ relaying.server = opened.server ∧
        relaying.inputCancelled = opened.inputCancelled ∧
        ∃ forwarder, relaying.inputRelay = some forwarder ∧ forwarder.stage = .reading ∧
          forwarder.buffer = [] :=
    ⟨{ opened.startRelays with phase := .draining }, by simp only [advance, proceed, opening]; rfl,
      rfl, rfl, rfl, rfl, _, rfl, rfl, rfl⟩
  -- the relay of messages reads the message, and is about to write it
  obtain ⟨rest, found⟩ : ∃ rest, gather forwarder.buffer relaying.client = (.message body, [], rest) :=
    gather_frame fits (by rw [empty, client', client, List.nil_append, sent])
  obtain ⟨sending, third, server'', room, readable, forwarder', started', stage⟩ :=
    readMessage_plain plain (active'.trans active) found
  have third : relaying.advance .inputRelay = some sending := by
    simp only [advance, forward, started, Option.bind_eq_bind, Option.bind_some, reading]
    exact third
  -- the session is cancelled, and its tasks go on as far as they can
  have reachable : Reachable (beginning.state .standard disk) { sending with outerCancelled := true } :=
    (((Reachable.start.step (.turn .run first)).step (.turn .run second)).step
      (.turn .inputRelay third)).step (.move .cancels rfl)
  have cancelled : ({ sending with outerCancelled := true } : State).cancelled = true := rfl
  have crowded : ¬ ({ sending with outerCancelled := true } : State).Roomy := by
    have owed : ({ sending with outerCancelled := true } : State).owed = (Frame.encode body).length := by
      simp [owed, started', stage, Forwarding.owed, Batch.owed, Batch.ofOutcome, Frame.encodeAll]
    have before : relaying.toServer = { capacity := pipeCapacity } := toServer'.trans toServer
    rw [before] at room readable
    rintro (unread | enough)
    · exact absurd (readable.symm.trans unread) (by simp)
    · rw [owed] at enough
      have space : sending.toServer.room = pipeCapacity := room
      change _ ≤ sending.toServer.room at enough
      omega
  have orderly := reachable_orderly reachable
  obtain ⟨count, after, turns, rest⟩ := turns_come_to_rest orderly cancelled
  obtain ⟨stands, same, _⟩ := (turns.outcome orderly cancelled).2 crowded
  refine ⟨after, reachable.trans turns.reachable, (turns.wanes orderly cancelled).2.1,
    stands.resolve_left rest, rest, ?_⟩
  rw [same]
  exact server''.trans (server'.trans server)

/-- Both names that the interceptor looks for have a letter that such a message lacks. -/
theorem droning_plain (length : Nat) : Message.intercepted? (List.replicate length 0x78) = none := by
  have missing (name : String) (letter : UInt8) (member : letter ∈ Bytes.ascii name)
      (other : letter ≠ 0x78) :
      Bytes.contains (Bytes.ascii name) (List.replicate length 0x78) = false := by
    rw [Bool.eq_false_iff, ne_eq, Message.contains_iff (List.ne_nil_of_mem member)]
    intro occurs
    exact other (List.eq_of_mem_replicate (occurs.mem member))
  simp [Message.intercepted?, Message.suggested?,
    missing Message.diagnosticMethod 0x69 (by decide) (by decide),
    missing Message.initializeMethod 0x69 (by decide) (by decide)]

/-- A cancelled session that has not returned and cannot go on, its server running. -/
theorem cancelled_session_stands_still :
    ∃ state, Reachable ((droning 70000).state .standard {}) state ∧ state.cancelled = true ∧
      state.result?.isNone = true ∧ state.server = .running ∧ ∀ task, (state.advance task).isNone = true := by
  have long : pipeCapacity < (Frame.encode (List.replicate 70000 0x78)).length := by
    simp only [Frame.encode, List.length_append, List.length_replicate, pipeCapacity]
    omega
  have fits : Frame.Fits (List.replicate 70000 0x78) := by
    simp only [Frame.Fits, List.length_replicate]
    decide
  obtain ⟨state, reachable, cancelled, held, rest, server⟩ :=
    overlong_message_holds_up (droning 70000) {} fits (droning_plain 70000) rfl long
  refine ⟨state, reachable, cancelled, ?_, server, fun task => ?_⟩
  · simp [result?, held.draining]
  · cases turn : state.advance task with
    | none => rfl
    | some after => exact absurd ⟨task, by rw [turn]; rfl⟩ rest

end State

end Session

end LspProxy
