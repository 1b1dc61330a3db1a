import LspProxy.Proofs.Frame.Malformed
import LspProxy.Proofs.Relay.Forwarding

/-!
# Relays that stall

A malformed header in the client's data is where the relay stops getting anywhere. The reader hands out the
messages before it and no others, so only their batches are due, whatever stands behind the header. They are
all delivered if the end of the client's stream is what ends the relay, and the relay then warns of the bytes
that are left, which are those from the header on. They are also all delivered before anything that happens
to the stream once the header has arrived: what the reader meets behind a message does not change what it
hands out (`Frame.Reader.HandsOut.prefix_append`).

The argument needs no more of the reader than what it drains its stream to. Everything that is particular to
malformed headers is in `Frame.Malformed.drain_arrived`.
-/
namespace LspProxy.Relay

/-- What is reported of a client that closes its stream with so many bytes in no message. -/
def residualReport (residual : Nat) : Log.Event :=
  ⟨.warning, "client closed with an incomplete message buffered", [("residual", .number residual)]⟩

/-- A relay that ends in order at the end of the client's stream reports the bytes in no message, if there
are any. The induction follows the messages handed out; what is reported on the way to the last of them
comes first. -/
theorem residual_reported {reader : Frame.Reader} {bodies : List Bytes} {residual : Nat}
    (hands : reader.HandsOut bodies (.closed residual)) (pending : 0 < residual)
    (interceptor : Message.Interceptor) (outlet : Outlet) (totals : Totals) {reported : Totals}
    (ended : (forwardFrom interceptor outlet totals reader).value.1 = .ok reported) :
    residualReport residual ∈ (forwardFrom interceptor outlet totals reader).events := by
  generalize same : Frame.Reading.closed residual = ending at hands
  induction hands generalizing interceptor outlet totals with
  | @stopped reader after ending read noMessage =>
    subst same
    rw [forwardFrom]
    split
    case h_4 found =>
      rw [read] at found
      obtain ⟨same, rfl⟩ := Prod.mk.inj found
      cases same
      simp only [pending, ↓reduceIte]
      exact List.mem_cons_self
    all_goals
      rename_i found
      rw [read] at found
      exact absurd (Prod.mk.inj found).1 (by simp)
  | @message reader after body bodies ending read later inductionHypothesis =>
    rw [forwardFrom] at ended ⊢
    split at ended
    case h_5 body' after' found =>
      obtain ⟨same', rfl⟩ := Prod.mk.inj (read.symm.trans found)
      obtain rfl := Frame.Reading.message.inj same'
      simp only [Log.Logged.value_bind] at ended
      simp only [Log.Logged.events_bind]
      refine List.mem_append_right _ (List.mem_append_right _ ?_)
      generalize (interceptor.process outlet.disk body).value = treated at ended ⊢
      generalize (outlet.deliver treated.1).value = delivered at ended ⊢
      obtain ⟨failure | bytes, next⟩ := delivered
      · cases ended
      · exact inductionHypothesis treated.2 next (totals.add treated.1 bytes) ended same
    all_goals
      rename_i found
      rw [read] at found
      exact absurd (Prod.mk.inj found).1 (by simp)

/-- A reader that finds the end of its stream ends the relay with its totals. -/
theorem settle_closed {totals : Totals} {delivery : Except Failure Unit × Sink} (residual : Nat)
    (delivered : delivery.1 = .ok ()) : (settle totals (.closed residual) delivery).1 = .ok totals := by
  obtain ⟨failure | _, sink⟩ := delivery
  · exact absurd delivered nofun
  · rfl

section

variable {source : Source} {token : Token} {handed : List Bytes} {ending : Frame.Reading}

/-- The server gets no more than the batches of the messages handed out. -/
theorem forward_transmits (hands : Frame.Reader.HandsOut { source, token } handed ending)
    (workspace : Workspace) (outlet : Outlet) :
    ∃ sent, (outward (forward workspace outlet token source)).2.accepted = outlet.sink.accepted ++ sent ∧
      sent <+: Message.Outcome.wires (treatments { workspace } outlet.log outlet.disk handed) := by
  have relayed := outward_forwardFrom_handsOut hands { workspace } outlet {}
  obtain ⟨sent, begins, accepted, _⟩ := outlet.sink.deliverEach_accepted
    ((treatments { workspace } outlet.log outlet.disk handed).map Message.Outcome.frames)
  rw [Message.Outcome.flatten_frames] at begins
  refine ⟨sent, ?_, begins⟩
  unfold forward
  rw [relayed, settle_accepted, accepted]

/-- A relay that reports the end of the client's stream has delivered and counted all of these batches. -/
theorem forward_exhausted (hands : Frame.Reader.HandsOut { source, token } handed ending)
    (workspace : Workspace) (outlet : Outlet) {totals : Totals}
    (succeeded : (outward (forward workspace outlet token source)).1 = .ok totals)
    (exhausted : totals.ending = .exhausted) :
    let due := treatments { workspace } outlet.log outlet.disk handed
    (∃ residual, ending = .closed residual) ∧
      (outward (forward workspace outlet token source)).2.accepted =
        outlet.sink.accepted ++ Message.Outcome.wires due ∧
      totals.messages = Message.Outcome.count due ∧
      totals.bytes = (Message.Outcome.wires due).length := by
  intro due
  have relayed := outward_forwardFrom_handsOut hands { workspace } outlet {}
  obtain ⟨sent, _, accepted, whole⟩ :=
    outlet.sink.deliverEach_accepted (due.map Message.Outcome.frames)
  rw [Message.Outcome.flatten_frames] at whole
  unfold forward at succeeded ⊢
  rw [relayed] at succeeded ⊢
  obtain ⟨delivered, messages, bytes, closed⟩ := settle_ok hands.ending_ne_message succeeded
  rw [Totals.addAll_eq] at messages bytes
  refine ⟨closed exhausted, ?_, messages.trans (Nat.zero_add _), bytes.trans (Nat.zero_add _)⟩
  rw [settle_accepted, accepted, whole delivered]

/-- An obliging server gets all of them, and if the end of the stream stops the reader, the relay reports
it. -/
theorem forward_obliging (hands : Frame.Reader.HandsOut { source, token } handed ending)
    (workspace : Workspace) {outlet : Outlet} (obliging : outlet.sink.Obliging) :
    let due := treatments { workspace } outlet.log outlet.disk handed
    let run := outward (forward workspace outlet token source)
    run.2.accepted = outlet.sink.accepted ++ Message.Outcome.wires due ∧
      ∀ residual, ending = .closed residual → ∃ totals, run.1 = .ok totals ∧ totals.ending = .exhausted := by
  intro due run
  have relayed : run = settle (Totals.addAll {} due) ending
      (outlet.sink.deliverEach (due.map Message.Outcome.frames)) :=
    outward_forwardFrom_handsOut hands { workspace } outlet {}
  obtain ⟨sent, _, accepted, whole⟩ :=
    outlet.sink.deliverEach_accepted (due.map Message.Outcome.frames)
  rw [Message.Outcome.flatten_frames] at whole
  have delivered := obliging.deliverEach (due.map Message.Outcome.frames)
  constructor
  · rw [relayed, settle_accepted, accepted, whole delivered]
  · rintro residual rfl
    rw [relayed, settle_closed residual delivered]
    exact ⟨_, rfl, by rw [Totals.addAll_eq]⟩

end

/-- What a relay does on a stream in which the header stands where the front ends, if these batches are due
for the messages before it. -/
structure Stalls (header front : Bytes) (due : List Message.Outcome) (sink : Sink) (token : Token)
    (source : Source) (relay : Log.Logged (Except Failure Totals × Outlet)) : Prop where
  /-- The server gets no more than the batches due. -/
  first : ∃ sent, (outward relay).2.accepted = sink.accepted ++ sent ∧ sent <+: Message.Outcome.wires due
  /-- If the relay reports the end of a stream that the header has come before, the server has got all of
  them, they are counted, and the relay has warned of all bytes from the header on. -/
  exhausted : ∀ totals arrived, (outward relay).1 = .ok totals → totals.ending = .exhausted →
    source.beforeEnd = front ++ arrived → header <+: arrived →
      (outward relay).2.accepted = sink.accepted ++ Message.Outcome.wires due ∧
        totals.messages = Message.Outcome.count due ∧
        totals.bytes = (Message.Outcome.wires due).length ∧
        residualReport arrived.length ∈ relay.events
  /-- If nothing goes wrong before the header has come, and never on the server's side, the server gets all
  of them, whatever happens then. If nothing happens then, the relay reports the end of the stream. -/
  delivered : ∀ met rest arrived, source = met ++ rest → (∀ arrival ∈ met, arrival.Quiet) →
    met.bytes = front ++ arrived → header <+: arrived → ¬ token.isCancelled → sink.Obliging →
      (outward relay).2.accepted = sink.accepted ++ Message.Outcome.wires due ∧
        (rest = [] → ∃ totals, (outward relay).1 = .ok totals ∧ totals.ending = .exhausted)

/-- The relay does so if the header is malformed. -/
theorem forward_stalls {source : Source} {header front : Bytes} {bodies : List Bytes}
    (malformed : Frame.Malformed header) (stands : Frame.Stands header front bodies source.bytes)
    (token : Token) (workspace : Workspace) (outlet : Outlet) :
    Stalls header front (treatments { workspace } outlet.log outlet.disk bodies) outlet.sink token source
      (forward workspace outlet token source) := by
  obtain ⟨handed, ending, hands⟩ := Frame.Reader.handsOut_exists { source, token }
  have first : handed <+: bodies := malformed.drain_whole stands ▸ hands.isPrefix
  constructor
  case first =>
    obtain ⟨sent, total, begins⟩ := forward_transmits hands workspace outlet
    rw [List.prefix_iff_eq_take.mp first, treatments_take] at begins
    exact ⟨sent, total, begins.trans (Message.Outcome.wires_take_isPrefix _ _)⟩
  case exhausted =>
    intro totals arrived succeeded exhausted arrives there
    obtain ⟨⟨residual, rfl⟩, total, messages, bytes⟩ :=
      forward_exhausted hands workspace outlet succeeded exhausted
    have drained : Frame.drain source.beforeEnd = (bodies, arrived) :=
      arrives ▸ malformed.drain_arrived stands there
    obtain ⟨all, left⟩ := hands.drained
    obtain rfl : bodies = handed := (congrArg Prod.fst drained).symm.trans all
    obtain rfl : arrived.length = residual :=
      (congrArg (List.length ∘ Prod.snd) drained).symm.trans left
    have pending : 0 < arrived.length := Nat.lt_of_lt_of_le malformed.length_pos there.length_le
    exact ⟨total, messages, bytes, residual_reported hands pending { workspace } outlet {} succeeded⟩
  case delivered =>
    rintro met rest arrived rfl quiet arrives there live obliging
    obtain ⟨others, early, before⟩ := Frame.Reader.handsOut_exists { source := met, token }
    obtain ⟨residual, rfl⟩ := before.closed_of_quiet live quiet
    have drained : (Frame.drain met.beforeEnd).1 = others := before.drained.1
    rw [Source.beforeEnd_of_quiet quiet, arrives, malformed.drain_arrived stands there] at drained
    obtain rfl : bodies = others := drained
    obtain rfl : handed = bodies := first.eq_of_length_le (before.prefix_append hands).length_le
    obtain ⟨total, ends⟩ := forward_obliging hands workspace obliging
    refine ⟨total, ?_⟩
    rintro rfl
    obtain ⟨residual, closed⟩ :=
      hands.closed_of_quiet live (by simpa only [List.append_nil] using quiet)
    exact ends residual closed

/-- A malformed header is final. No bytes behind it make a message of it, or make anything of it go away.
So in a stream that has one at the end of a message, whatever comes before and behind it, calls hand out
the messages before the header and none after them, everything from the header on is held, and the relay
sends what those messages come to and nothing else. -/
theorem malformed_header_final {header : Bytes} (malformed : Frame.Malformed header) :
    (∀ more, Frame.decode (header ++ more) = none ∧
      Frame.drain (header ++ more) = ([], header ++ more)) ∧
      ∀ (source : Source) (front : Bytes) (bodies : List Bytes) (token : Token),
        Frame.Stands header front bodies source.bytes →
          (∀ count,
            let start : Frame.Reader := { source, token }
            let call := (start.latest (start.calls count)).next
            Frame.Reader.Stalls header front bodies source
              (Frame.Reader.handedOut (start.calls count)) call.1 call.2) ∧
          ∀ (workspace : Workspace) (outlet : Outlet),
            Stalls header front (treatments { workspace } outlet.log outlet.disk bodies) outlet.sink token
              source (forward workspace outlet token source) := by
  refine ⟨fun more => ?_, fun source front bodies token stands => ⟨?_, ?_⟩⟩
  · have nothing := (malformed.append more).decode_eq_none
    exact ⟨nothing, Frame.drain_of_none nothing⟩
  · exact Frame.Reader.calls_stall malformed stands token
  · exact forward_stalls malformed stands token

/-- A second header field where the second line ending should be, behind one message and in two reads. -/
theorem second_field_final :
    let header := Bytes.ascii "Content-Length: 2\r\nC"
    let front := Frame.encode (Bytes.ascii "ping")
    let source : Source := [.data (front ++ header.take 9), .waiting,
      .data (header.drop 9 ++ Bytes.ascii "ontent-Type: text\r\n\r\nhi")]
    let outlet : Outlet := { sink := { chunk := some 4 }, log := {}, disk := {} }
    let due := treatments { workspace := {} } outlet.log outlet.disk [Bytes.ascii "ping"]
    Frame.Malformed header ∧ Frame.Stands header front [Bytes.ascii "ping"] source.bytes ∧
      (∀ more, Frame.decode (header ++ more) = none ∧
        Frame.drain (header ++ more) = ([], header ++ more)) ∧
      (∀ count,
        let start : Frame.Reader := { source, token := .clear }
        let call := (start.latest (start.calls count)).next
        Frame.Reader.Stalls header front [Bytes.ascii "ping"] source
          (Frame.Reader.handedOut (start.calls count)) call.1 call.2) ∧
      Stalls header front due outlet.sink .clear source (forward {} outlet .clear source) := by
  intro header front source outlet due
  have malformed : Frame.Malformed header := {
    opens := by decide
    flawed := ⟨Bytes.ascii "Content-Length: 2", Bytes.lineFeed :: Bytes.ascii "C", by decide, by decide,
      .separator [] (by decide)⟩ }
  have stands : Frame.Stands header front [Bytes.ascii "ping"] source.bytes :=
    ⟨Bytes.ascii "ontent-Type: text\r\n\r\nhi", by decide, .message (by decide) (.here _)⟩
  obtain ⟨stays, stalls⟩ := malformed_header_final malformed
  obtain ⟨calls, relay⟩ := stalls source front _ .clear stands
  exact ⟨malformed, stands, stays, calls, relay {} outlet⟩

end LspProxy.Relay
