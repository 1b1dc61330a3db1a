import LspProxy.Proofs.Frame.Hearing
import LspProxy.Proofs.Relay.Batches
import LspProxy.Proofs.Stream.Sink

/-!
# What the relay sends and reports

The relay is taken apart into three things that do not depend on one another: the messages that its
reader hands out, what the interceptor makes of them, and how the server's stream takes the batches
that come of it. `forwardFrom_value` puts them together again. Failures, cancellations and ends of the
stream then need no separate treatment: a failed delivery ends the relay where it happens, and
otherwise the ending of the reader does.

The main statement accounts for every byte on the server's side, on every way out. Batches are those
of the messages drained from all of the client's data, and nothing is assumed about the client's
stream, the server's stream, the log or the moment of a cancellation.
-/
namespace LspProxy.Relay

namespace Outlet

/-- Sending a body writes its frame, and records it once it is written. -/
theorem send_value (outlet : Outlet) (body : Bytes) :
    (outlet.send body).value =
      match outlet.sink.writeAll (Frame.encode body) with
      | (.error failure, sink) => (.error failure, { outlet with sink })
      | (.ok (), sink) =>
        let next := (outlet.log.record outlet.disk (Frame.encode body)).value
        (.ok (Frame.encode body).length, ⟨sink, next.1, next.2⟩) := by
  unfold send Frame.send
  simp only
  rcases written : outlet.sink.writeAll (Frame.encode body) with ⟨_ | _, after⟩
  · rfl
  · rfl

/-- Sending bodies writes their frames one after the other. If all of them are written, all are
recorded; if not, the failure of the write is the answer. -/
theorem sendAll_value (outlet : Outlet) (bodies : List Bytes) :
    match outlet.sink.writeEach (bodies.map Frame.encode) with
    | (.ok (), sink) =>
      let next := outlet.log.recorded outlet.disk (bodies.map Frame.encode)
      (outlet.sendAll bodies).value = (.ok (Frame.encodeAll bodies).length, ⟨sink, next.1, next.2⟩)
    | (.error failure, sink) =>
      ∃ log disk, (outlet.sendAll bodies).value = (.error failure, ⟨sink, log, disk⟩) := by
  induction bodies generalizing outlet with
  | nil => rfl
  | cons body bodies inductionHypothesis =>
    have sent := outlet.send_value body
    simp only [List.map_cons, Sink.writeEach, sendAll, Log.Logged.value_bind]
    rcases written : outlet.sink.writeAll (Frame.encode body) with ⟨failure | _, after⟩
    · rw [written] at sent
      simp only [sent]
      exact ⟨outlet.log, outlet.disk, rfl⟩
    · rw [written] at sent
      have others := inductionHypothesis (outlet.send body).value.2
      simp only [sent] at others ⊢
      rcases rest : after.writeEach (bodies.map Frame.encode) with ⟨failure | _, final⟩
      · rw [rest] at others
        obtain ⟨log, disk, failed⟩ := others
        exact ⟨log, disk, by rw [Log.Logged.value_bind, failed]; rfl⟩
      · rw [rest] at others
        simp only at others ⊢
        rw [Log.Logged.value_bind, others]
        simp [Frame.encodeAll, MessageLog.recorded]

/-- Delivering an outcome delivers its frames as one batch, and records all of them once they are
written. -/
theorem deliver_value (outlet : Outlet) (outcome : Message.Outcome) :
    match outlet.sink.deliver outcome.frames with
    | (.ok (), sink) =>
      let next := outlet.log.recorded outlet.disk outcome.frames
      (outlet.deliver outcome).value = (.ok outcome.wire.length, ⟨sink, next.1, next.2⟩)
    | (.error failure, sink) =>
      ∃ log disk, (outlet.deliver outcome).value = (.error failure, ⟨sink, log, disk⟩) := by
  have sent := outlet.sendAll_value outcome.bodies
  simp only [deliver, Sink.deliver, Message.Outcome.frames]
  rcases written : outlet.sink.writeEach (outcome.bodies.map Frame.encode) with ⟨failure | _, after⟩
  · rw [written] at sent
    obtain ⟨log, disk, failed⟩ := sent
    refine ⟨log, disk, ?_⟩
    change (outlet.sendAll (outcome.forward :: outcome.inject)).value = _ at failed
    rw [Log.Logged.value_bind, failed]
    rfl
  · rw [written] at sent
    change (outlet.sendAll (outcome.forward :: outcome.inject)).value = _ at sent
    rw [Log.Logged.value_bind, sent]
    rcases flushed : after.flush with ⟨failure | _, final⟩
    · simp only [flushed]
      exact ⟨_, _, rfl⟩
    · simp only [flushed]
      rfl

end Outlet

/-- How the relay ends once all batches are delivered, by what stops the reader: with its totals and
the server's stream closed, or with the failure of a read and the stream as it is. -/
def conclude (totals : Totals) (sink : Sink) : Frame.Reading → Except Failure Totals × Sink
  | .failed failure => (.error failure, sink)
  | .cancelled | .abandoned => (.ok { totals with ending := .cancelled }, sink.shutdown.2)
  | .closed _ | .message _ => (.ok totals, sink.shutdown.2)

/-- Nothing is transmitted while a relay ends. -/
theorem conclude_accepted (totals : Totals) (sink : Sink) (ending : Frame.Reading) :
    (conclude totals sink ending).2.accepted = sink.accepted := by
  cases ending with
  | failed failure => rfl
  | message body => exact sink.shutdown_accepted
  | closed residual => exact sink.shutdown_accepted
  | cancelled => exact sink.shutdown_accepted
  | abandoned => exact sink.shutdown_accepted

/-- A relay that ends in order reports what it has counted. It reports the end of the stream only if
the reader has found it. -/
theorem conclude_ok {totals reported : Totals} {sink : Sink} {ending : Frame.Reading}
    (noMessage : ∀ body, ending ≠ .message body)
    (answered : (conclude totals sink ending).1 = .ok reported) :
    reported.messages = totals.messages ∧ reported.bytes = totals.bytes ∧
      (reported.ending = .exhausted → ∃ residual, ending = .closed residual) := by
  cases ending with
  | message body => exact absurd rfl (noMessage body)
  | failed failure => exact absurd answered (by simp [conclude])
  | closed residual =>
    obtain rfl : totals = reported := Except.ok.inj answered
    exact ⟨rfl, rfl, fun _ => ⟨residual, rfl⟩⟩
  | cancelled =>
    obtain rfl : { totals with ending := .cancelled } = reported := Except.ok.inj answered
    exact ⟨rfl, rfl, fun exhausted => by simp at exhausted⟩
  | abandoned =>
    obtain rfl : { totals with ending := .cancelled } = reported := Except.ok.inj answered
    exact ⟨rfl, rfl, fun exhausted => by simp at exhausted⟩

/-- How the relay ends, by what has come of its deliveries: the first of them that fails is its answer,
with the server's stream as it is then. -/
def settle (totals : Totals) (ending : Frame.Reading) :
    Except Failure Unit × Sink → Except Failure Totals × Sink
  | (.error failure, sink) => (.error failure, sink)
  | (.ok (), sink) => conclude totals sink ending

/-- What the server has accepted is what the deliveries have transmitted. -/
theorem settle_accepted (totals : Totals) (ending : Frame.Reading)
    (delivery : Except Failure Unit × Sink) :
    (settle totals ending delivery).2.accepted = delivery.2.accepted := by
  obtain ⟨failure | _, sink⟩ := delivery
  · rfl
  · exact conclude_accepted totals sink ending

/-- A relay that succeeds has delivered everything, and reports what it has counted. It reports the end
of the stream only if the reader has found it. -/
theorem settle_ok {totals reported : Totals} {ending : Frame.Reading}
    {delivery : Except Failure Unit × Sink} (noMessage : ∀ body, ending ≠ .message body)
    (succeeded : (settle totals ending delivery).1 = .ok reported) :
    delivery.1 = .ok () ∧ reported.messages = totals.messages ∧ reported.bytes = totals.bytes ∧
      (reported.ending = .exhausted → ∃ residual, ending = .closed residual) := by
  obtain ⟨failure | _, sink⟩ := delivery
  · exact absurd succeeded (by simp [settle])
  · exact ⟨rfl, conclude_ok noMessage succeeded⟩

/-- What is seen of a relay when it is done: its answer, and the server's stream. -/
def outward (run : Log.Logged (Except Failure Totals × Outlet)) : Except Failure Totals × Sink :=
  (run.value.1, run.value.2.sink)

/-- Closing the server's stream, whether it fails or not, is one shutdown. -/
theorem outward_finish (outlet : Outlet) (totals : Totals) :
    outward (outlet.finish totals) = (.ok totals, outlet.sink.shutdown.2) := by
  unfold outward Outlet.finish Outlet.close
  rcases closed : outlet.sink.shutdown with ⟨failure | _, after⟩
  · rfl
  · rfl

/-- One turn of the relay. A message is treated and delivered, and the relay goes on unless the
delivery fails; anything else that the reader meets concludes it. -/
theorem outward_forwardFrom (interceptor : Message.Interceptor) (outlet : Outlet) (totals : Totals)
    (reader : Frame.Reader) :
    outward (forwardFrom interceptor outlet totals reader) =
      match reader.next with
      | (.message body, after) =>
        let treated := (interceptor.process outlet.disk body).value
        match (outlet.deliver treated.1).value with
        | (.error failure, outlet) => (.error failure, outlet.sink)
        | (.ok bytes, outlet) =>
          outward (forwardFrom treated.2 outlet (totals.add treated.1 bytes) after)
      | (ending, _) => conclude totals outlet.sink ending := by
  rw [forwardFrom]
  split
  case h_1 read => rw [read, outward_finish]; rfl
  case h_2 read => rw [read, outward_finish]; rfl
  case h_3 read => rw [read]; rfl
  case h_4 residual after read =>
    rw [read]
    have closed := outward_finish outlet totals
    by_cases pending : residual > 0
    · simp only [pending, ↓reduceIte]
      exact closed
    · simp only [pending, ↓reduceIte]
      exact closed
  case h_5 body after read =>
    simp only [read]
    unfold outward
    simp only [Log.Logged.value_bind]
    generalize (interceptor.process outlet.disk body).value = treated
    rcases delivered : (outlet.deliver treated.1).value with ⟨failure | bytes, next⟩
    · rfl
    · rfl

/-- The whole relay. Its batches are delivered one after the other until a write or a flush fails,
which is then its answer, with the server's stream as the failed call has left it. If none fails, what
stops the reader decides. The induction follows the messages handed out, and carries along what the
interceptor, the log and the totals have come to. -/
theorem outward_forwardFrom_handsOut {reader : Frame.Reader} {bodies : List Bytes}
    {ending : Frame.Reading} (hands : reader.HandsOut bodies ending)
    (interceptor : Message.Interceptor) (outlet : Outlet) (totals : Totals) :
    let outcomes := treatments interceptor outlet.log outlet.disk bodies
    outward (forwardFrom interceptor outlet totals reader) =
      settle (totals.addAll outcomes) ending
        (outlet.sink.deliverEach (outcomes.map Message.Outcome.frames)) := by
  induction hands generalizing interceptor outlet totals with
  | @stopped reader after ending read noMessage =>
    rw [outward_forwardFrom]
    cases ending with
    | message body => exact absurd rfl (noMessage body)
    | closed residual => simp only [read]; rfl
    | failed failure => simp only [read]; rfl
    | cancelled => simp only [read]; rfl
    | abandoned => simp only [read]; rfl
  | @message reader after body bodies ending read later inductionHypothesis =>
    rw [outward_forwardFrom]
    simp only [read, treatments, List.map_cons, Sink.deliverEach]
    generalize (interceptor.process outlet.disk body).value = treated
    have batch := outlet.deliver_value treated.1
    rcases delivered : outlet.sink.deliver treated.1.frames with ⟨failure | _, sink⟩
    · rw [delivered] at batch
      obtain ⟨log, disk, failed⟩ := batch
      rw [failed]
      rfl
    · rw [delivered] at batch
      simp only at batch ⊢
      rw [batch]
      exact inductionHypothesis treated.2 _ _

/-- Every byte that the server accepts is accounted for, whatever the two streams do. Let the batches
due be those of all messages in the client's data. Left to itself, the reader hands out the first
`count` of these messages before something stops it. Then:

- what stops the reader stands in the stream where it stops: the end, the failure of a read, a caller who
  gives up, or, behind a cancellation, the next message or a wait for it;
- what the server accepts is a beginning of the batches due;
- if the relay succeeds, the server has accepted exactly the first `count` batches, which the totals
  count, and at the end of the stream these are the batches of all messages complete before it;
- if a write or a flush fails while the `count` batches are delivered, that failure is the answer, and
  nothing happens on the server's stream after it, not even a shutdown;
- if none fails, the answer is that of what has stopped the reader. -/
theorem forward_accounts (workspace : Workspace) (outlet : Outlet) (token : Token)
    (source : Source) :
    let bodies := (Frame.drain source.bytes).1
    let due := treatments { workspace } outlet.log outlet.disk bodies
    let run := outward (forward workspace outlet token source)
    ∃ count ≤ due.length, ∃ ending,
      Frame.Reader.HandsOut { source, token } (bodies.take count) ending ∧
      (∃ passed met rest,
        Frame.Reader.Hearing { source, token } (bodies.take count) ending passed met rest) ∧
      (∃ sent, run.2.accepted = outlet.sink.accepted ++ sent ∧ sent <+: Message.Outcome.wires due) ∧
      (∀ totals, run.1 = .ok totals →
        run.2.accepted = outlet.sink.accepted ++ Message.Outcome.wires (due.take count) ∧
        totals.bytes = (Message.Outcome.wires (due.take count)).length ∧
        totals.messages = Message.Outcome.count (due.take count) ∧
        (totals.ending = .exhausted → count = (Frame.drain source.beforeEnd).1.length)) ∧
      (∀ failure after,
        outlet.sink.deliverEach ((due.take count).map Message.Outcome.frames) =
          (.error failure, after) → run = (.error failure, after)) ∧
      (∀ after,
        outlet.sink.deliverEach ((due.take count).map Message.Outcome.frames) = (.ok (), after) →
          run = conclude (Totals.addAll {} (due.take count)) after ending) ∧
      (outlet.log.Unread outlet.disk →
        due = Message.Interceptor.outcomes outlet.disk { workspace } bodies) := by
  intro bodies due run
  obtain ⟨handed, ending, hands⟩ := Frame.Reader.handsOut_exists { source, token }
  have first : handed <+: bodies := hands.isPrefix
  obtain ⟨count, inside, rfl⟩ : ∃ count ≤ bodies.length, bodies.take count = handed :=
    ⟨handed.length, first.length_le, (List.prefix_iff_eq_take.mp first).symm⟩
  have relayed : run = _ := outward_forwardFrom_handsOut hands { workspace } outlet {}
  have batches : treatments { workspace } outlet.log outlet.disk (bodies.take count) =
      due.take count := treatments_take _ _ _ _ _
  rw [batches] at relayed
  obtain ⟨sent, begins, accepted, complete⟩ :=
    outlet.sink.deliverEach_accepted ((due.take count).map Message.Outcome.frames)
  rw [Message.Outcome.flatten_frames] at begins complete
  have unread : outlet.log.Unread outlet.disk → due = _ :=
    fun unread => treatments_of_unread unread { workspace } bodies
  obtain ⟨passed, met, rest, hearing, _⟩ := hands.hearing
  refine ⟨count, by rwa [treatments_length], ending, hands, ⟨passed, met, rest, hearing⟩,
    ⟨sent, ?_, ?_⟩, ?_, ?_, ?_, unread⟩
  · rw [relayed, settle_accepted, accepted]
  · exact begins.trans (Message.Outcome.wires_take_isPrefix due count)
  · intro totals succeeded
    rw [relayed] at succeeded
    obtain ⟨delivered, messages, bytes, exhausted⟩ := settle_ok hands.ending_ne_message succeeded
    rw [Totals.addAll_eq] at messages bytes
    refine ⟨?_, ?_, ?_, ?_⟩
    · rw [relayed, settle_accepted, accepted, complete delivered]
    · exact bytes.trans (Nat.zero_add _)
    · exact messages.trans (Nat.zero_add _)
    · intro ended
      obtain ⟨residual, rfl⟩ := exhausted ended
      have drained : (Frame.drain source.beforeEnd).1 = bodies.take count := hands.drained.1
      rw [drained, List.length_take_of_le inside]
  · intro failure after failed
    rw [relayed, failed]
    rfl
  · intro after delivered
    rw [relayed, delivered]
    rfl

end LspProxy.Relay
