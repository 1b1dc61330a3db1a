import LspProxy.Proofs.Relay.Forwarding
import Mathlib

/-!
# How the relay of messages stops

The relay looks at the cancellation before each message, and while a message is awaited whenever the stream
is not ready. The reads that one message takes are made inside one call, and as long as the stream is ready
that call goes on from read to read without looking. A cancellation therefore stops the relay with the call
under way: one more message at most, but as many portions of data as this message takes and the stream has
ready.

How the calls get through their stream is told by `Hearing`, and what a cancellation leaves them to do by
`Stopping`. The token goes along with what has been met, so the statements speak of every place in the stream
at which the session is cancelled.
-/
namespace LspProxy.Relay

/-- In a cancelled session the relay looks for no further message. -/
theorem outward_forwardFrom_cancelled {reader : Frame.Reader} (cancelled : reader.token.isCancelled)
    (interceptor : Message.Interceptor) (outlet : Outlet) (totals : Totals) :
    outward (forwardFrom interceptor outlet totals reader) =
      (.ok { totals with ending := .cancelled }, outlet.sink.shutdown.2) := by
  have read : reader.next = (.cancelled, reader) := Frame.Reader.next_eq_iff.mpr (.cancelled cancelled)
  rw [outward_forwardFrom, read]
  rfl

/-- The answer of a relay whose reader stops at this, in what the reader has met and left: it tells of the
cancellation unless the end of the stream was found, and a failure is that of the read or of a delivery. -/
theorem settle_answers {totals : Totals} {ending : Frame.Reading} {met rest : Source}
    (stops : ending.StopsAt met rest) (delivery : Except Failure Unit × Sink) :
    match (settle totals ending delivery).1 with
    | .ok reported => reported.ending = .cancelled ∨ met = [.data []] ∨ met = [] ∧ rest = []
    | .error failure =>
      met = [.failure failure] ∧ ¬failure.isInterrupted ∨ delivery.1 = .error failure := by
  obtain ⟨failure | _, sink⟩ := delivery
  · exact Or.inr rfl
  · cases ending with
    | message body => exact stops.elim
    | closed residual => exact Or.inr stops
    | failed cause => exact Or.inl stops
    | cancelled => exact Or.inl rfl
    | abandoned => exact Or.inl rfl

/-- After a cancellation the relay ends with the call under way. Left to itself, its reader gets past a part
of the stream, ends at what it meets there, and leaves the rest, which does not count unless the end was
found. Wherever in this the session is cancelled:

- at most one more message is forwarded, with its injections;
- something more is met only as long as what has arrived since completes no message, so there is a second
  portion of data only if the first has left the message incomplete and the stream was ready with it;
- nothing is waited for;
- the relay then ends, as cancelled unless the last read found the end of the stream, and with a failure only
  if that read or a delivery failed.

A session that is cancelled between two calls, while a batch is delivered, is found cancelled before anything
more is read. -/
theorem relay_stops_with_call (workspace : Workspace) (outlet : Outlet) (token : Token) (source : Source) :
    (∃ bodies ending passed met rest,
      let due := treatments { workspace } outlet.log outlet.disk bodies
      let delivery := outlet.sink.deliverEach (due.map Message.Outcome.frames)
      let run := outward (forward workspace outlet token source)
      Frame.Reader.HandsOut { source, token } bodies ending ∧
      source = passed ++ (met ++ rest) ∧
      run = settle (Totals.addAll {} due) ending delivery ∧
      (∀ other, met ≠ [] ∨ ending = .cancelled →
        outward (forward workspace outlet token (passed ++ (met ++ other))) = run) ∧
      ∀ front back, passed ++ met = front ++ back → (token.after front).isCancelled →
        Frame.Reader.Stopping [] bodies passed front back ∧
        match run.1 with
        | .ok totals => totals.ending = .cancelled ∨ met = [.data []] ∨ met = [] ∧ rest = []
        | .error failure =>
          met = [.failure failure] ∧ ¬failure.isInterrupted ∨ delivery.1 = .error failure) ∧
    ∀ (interceptor : Message.Interceptor) (totals : Totals) (reader : Frame.Reader),
      reader.token.isCancelled →
        outward (forwardFrom interceptor outlet totals reader) =
          (.ok { totals with ending := .cancelled }, outlet.sink.shutdown.2) := by
  refine ⟨?_, fun interceptor totals reader cancelled =>
    outward_forwardFrom_cancelled cancelled interceptor outlet totals⟩
  obtain ⟨bodies, ending, hands⟩ := Frame.Reader.handsOut_exists { source, token }
  obtain ⟨passed, met, rest, hearing, _⟩ := hands.hearing
  have relayed {source : Source} (hands : Frame.Reader.HandsOut { source, token } bodies ending) :
      outward (forward workspace outlet token source) = _ :=
    outward_forwardFrom_handsOut hands { workspace } outlet {}
  refine ⟨bodies, ending, passed, met, rest, hands, hearing.parts, relayed hands, ?_, ?_⟩
  · intro other left
    rw [relayed (hearing.settled other left), relayed hands]
  · intro front back parts cancelled
    refine ⟨hearing.heeds front back parts cancelled, ?_⟩
    rw [relayed hands]
    exact settle_answers hearing.stops _

/-- A relay does not end with the read under way: whether a second portion comes behind the first after a
cancellation makes a difference. -/
theorem cancelled_relay_reads_on :
    ¬ ∀ (workspace : Workspace) (outlet : Outlet) (token : Token) (front : Source) (portion : Bytes)
      (later later' : Source), (token.after front).isCancelled → portion ≠ [] →
        outward (forward workspace outlet token (front ++ .data portion :: later)) =
          outward (forward workspace outlet token (front ++ .data portion :: later')) := by
  intro stops
  let outlet : Outlet := { sink := {}, log := {}, disk := {} }
  let front : Source := [.data (Bytes.ascii "Content-Length: 4\x0d\n\x0d\n"), .cancellation]
  have same := stops {} outlet .clear front (Bytes.ascii "ab") [.data (Bytes.ascii "cd")] [] rfl (by decide)
  -- With the second portion the message is complete, and is forwarded.
  have read : Frame.Reader.next
      { source := front ++ [.data (Bytes.ascii "ab"), .data (Bytes.ascii "cd")], token := .clear } =
        (.message (Bytes.ascii "abcd"), { source := [], token := .cancelled }) := by cbv
  have cancelled : Frame.Reader.next { source := [], token := .cancelled } =
      (.cancelled, { source := [], token := .cancelled }) := rfl
  have forwarded := outward_forwardFrom_handsOut (.message read (.stopped cancelled (by simp)))
    { workspace := {} } outlet {}
  -- Without it the stream ends inside the message.
  have ended : Frame.Reader.next { source := front ++ [.data (Bytes.ascii "ab")], token := .clear } =
      (.closed 23, { buffer := Bytes.ascii "Content-Length: 4\x0d\n\x0d\nab", source := [], token := .cancelled }) := by
    cbv
  have nothing := outward_forwardFrom_handsOut (.stopped ended (by simp)) { workspace := {} } outlet {}
  have obliging : outlet.sink.Obliging := ⟨by decide, by decide, rfl, rfl⟩
  rcases delivery : outlet.sink.deliverEach
    ((treatments { workspace := {} } outlet.log outlet.disk [Bytes.ascii "abcd"]).map Message.Outcome.frames)
    with ⟨failure | _, after⟩
  · exact absurd ((congrArg Prod.fst delivery).symm.trans (obliging.deliverEach _)) (by simp)
  · have answers := congrArg Prod.fst (forwarded.symm.trans (same.trans nothing))
    simp only [delivery] at answers
    exact absurd answers (by simp [settle, conclude, treatments, Totals.addAll, Sink.deliverEach])

end LspProxy.Relay
