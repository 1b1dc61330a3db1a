import LspProxy.Proofs.Frame.Reading

/-!
# How calls get through a stream

The messages that calls hand out are those of one passage through the stream: it gets past what all of the
calls get past, ends at what the last of them ends at, and leaves the rest, which does not count unless the
end was found (`Hearing`). Wherever in this the session is cancelled, the call under way goes on, and no
other (`Stopping`).
-/
namespace LspProxy.Frame

/-- What stops the calls, in what they have met and what they leave. -/
def Reading.StopsAt (met rest : Source) : Reading → Prop
  | .message _ => False
  | .closed _ => met = [.data []] ∨ met = [] ∧ rest = []
  | .failed cause => met = [.failure cause] ∧ ¬cause.isInterrupted
  | .cancelled => met = [] ∨ met = [.waiting]
  | .abandoned => met = [.abandoned]

namespace Reader

section

variable {held : Bytes} {token : Token} {passed met source : Source} {reading : Reading} {after : Reader}

/-- A call whose answer is no message stops the calls. -/
theorem Halts.stopsAt (halts : Halts held token met reading after) (noMessage : ∀ body, reading ≠ .message body) :
    reading.StopsAt met after.source := by
  cases halts with
  | message decoded later => exact absurd rfl (noMessage _)
  | exhausted nothing => exact Or.inr ⟨rfl, rfl⟩
  | ended nothing later => exact Or.inl rfl
  | failed nothing lasting later => exact ⟨rfl, lasting⟩
  | cancelled nothing observed later => exact Or.inr rfl
  | abandoned nothing later => rfl

/-- What is done after a cancellation, at a place of the stream behind which `back` is still met. -/
structure Stopping (held : Bytes) (bodies : List Bytes) (passed front back : Source) : Prop where
  /-- At most one message comes behind those complete at this place. -/
  single : bodies.length ≤ (drain (held ++ front.bytes)).1.length + 1
  /-- Something more is met only as long as what has arrived since completes no message. -/
  incomplete : ∀ inner outer, back = inner ++ outer → outer ≠ [] →
    (drain (held ++ (front ++ inner).bytes)).1 = (drain (held ++ front.bytes)).1
  /-- Nothing is waited for. -/
  ready : ∀ behind, passed = front ++ behind → .waiting ∉ behind

/-- How calls get through a stream until one hands out no message: what they get past, what the last of them
ends at, and what is left. -/
structure Hearing (reader : Reader) (bodies : List Bytes) (ending : Reading) (passed met rest : Source) : Prop where
  parts : reader.source = passed ++ (met ++ rest)
  stops : ending.StopsAt met rest
  /-- Only a cancelled session is found to be cancelled. -/
  observed : ending = .cancelled → (reader.token.after passed).isCancelled
  /-- What is left does not count, unless the calls have found nothing more. -/
  settled : ∀ other, met ≠ [] ∨ ending = .cancelled →
    HandsOut { reader with source := passed ++ (met ++ other) } bodies ending
  /-- Wherever the session is cancelled, it is only the call under way that goes on. -/
  heeds : ∀ front back, passed ++ met = front ++ back → (reader.token.after front).isCancelled →
    Stopping reader.buffer bodies passed front back

/-- In a cancelled session a call meets nothing. -/
theorem hearing_cancelled {reader : Reader} (cancelled : reader.token.isCancelled) :
    Hearing reader [] .cancelled [] [] reader.source where
  parts := rfl
  stops := Or.inl rfl
  observed _ := cancelled
  settled other _ := .stopped (next_eq_iff.mpr (.cancelled cancelled)) (by simp)
  heeds front back parts _ := by
    obtain ⟨rfl, rfl⟩ := List.append_eq_nil_iff.mp parts.symm
    refine ⟨Nat.zero_le _, fun inner outer parts more => ?_, ?_⟩
    · exact absurd (List.append_eq_nil_iff.mp parts.symm).2 more
    · intro behind same
      obtain rfl : behind = [] := same.symm
      simp

/-- The call under way when the session is cancelled. Until it is over, nothing complete has arrived. -/
theorem Call.stopping {front back : Source} {bodies : List Bytes}
    (call : Call held token source reading after passed met) (parts : passed ++ met = front ++ back)
    (cancelled : (token.after front).isCancelled) (few : bodies.length ≤ 1) :
    Stopping held bodies passed front back := by
  refine ⟨by omega, fun inner outer same more => ?_, ?_⟩
  · have here := call.nothing parts (by rw [same]; exact List.append_ne_nil_of_right_ne_nil inner more)
    have farther : passed ++ met = (front ++ inner) ++ outer := by rw [parts, same, List.append_assoc]
    have there := call.nothing farther more
    rw [drain_of_none here, drain_of_none there]
  · rintro behind rfl
    exact ((getsPast_append front behind).mp call.past).2.unwaiting cancelled

/-- A call of a reader in a session not cancelled, whatever it leaves. -/
theorem Call.next {reader : Reader} (call : Call reader.buffer reader.token source reading after passed met)
    (live : ¬reader.token.isCancelled) (left : met ≠ [] ∨ ∃ body, reading = .message body) (other : Source) :
    Reader.next { reader with source := passed ++ (met ++ other) } =
      (reading, { after with source := other }) :=
  next_eq_iff.mpr (.read live ⟨rfl, call.past, call.halts.elsewhere left other⟩)

/-- A call that hands out no message stops the calls. -/
theorem Call.hearing {reader : Reader}
    (call : Call reader.buffer reader.token reader.source reading after passed met)
    (live : ¬reader.token.isCancelled) (noMessage : ∀ body, reading ≠ .message body) :
    Hearing reader [] reading passed met after.source where
  parts := call.parts
  stops := call.halts.stopsAt noMessage
  observed := by
    rintro rfl
    cases call.halts with
    | cancelled nothing observed later => exact observed
  settled other left := by
    have meets : met ≠ [] := by
      rcases left with meets | rfl
      · exact meets
      · cases call.halts
        exact List.cons_ne_nil _ _
    exact .stopped (call.next live (Or.inl meets) other) noMessage
  heeds front back parts cancelled := call.stopping parts cancelled (Nat.zero_le 1)

/-- A call that hands out a message, and the calls after it. If the session is cancelled during the first
call, the others meet nothing; if it is later, they are the calls to look at. -/
theorem Call.hearing_message {reader : Reader} {body : Bytes} {bodies : List Bytes} {ending : Reading}
    {later met' rest : Source}
    (call : Call reader.buffer reader.token reader.source (.message body) after passed met)
    (live : ¬reader.token.isCancelled) (hearing : Hearing after bodies ending later met' rest)
    (idle : after.token.isCancelled → bodies = [] ∧ later = [] ∧ met' = []) :
    Hearing reader (body :: bodies) ending (passed ++ later) met' rest := by
  obtain ⟨rfl, decoded⟩ : met = [] ∧ decode (reader.buffer ++ passed.bytes) = some (body, after.buffer) := by
    cases call.halts with
    | message decoded _ => exact ⟨rfl, decoded⟩
  have heeds : after.token = reader.token.after passed := call.halts.heeds
  refine ⟨?parts, hearing.stops, ?observed, ?settled, ?heeds⟩
  case parts => rw [call.parts, hearing.parts, List.append_assoc]; rfl
  case observed =>
    rw [Token.after_append, ← heeds]
    exact hearing.observed
  case settled =>
    intro other left
    have read := call.next live (Or.inr ⟨body, rfl⟩) (later ++ (met' ++ other))
    rw [List.append_assoc]
    exact .message read (hearing.settled other left)
  case heeds =>
    intro front back parts cancelled
    rw [List.append_assoc] at parts
    rcases List.append_eq_append_iff.mp parts with ⟨between, rfl, same⟩ | ⟨between, rfl, rfl⟩
    · rw [Token.after_append, ← heeds] at cancelled
      have drained (more : Source) : (drain (reader.buffer ++ (passed ++ more).bytes)).1 =
          body :: (drain (after.buffer ++ more.bytes)).1 := by
        rw [Source.bytes_append, ← List.append_assoc, drain_of_some (decode_append decoded _)]
      obtain ⟨single, incomplete, ready⟩ := hearing.heeds between back same cancelled
      refine ⟨?_, fun inner outer cut more => ?_, fun behind cut => ?_⟩
      · rw [drained]
        simpa using single
      · rw [List.append_assoc, drained, drained, incomplete inner outer cut more]
      · rw [List.append_assoc] at cut
        exact ready behind (List.append_cancel_left cut)
    · have afterwards : after.token.isCancelled := by
        rw [heeds, Token.after_append]
        exact Token.after_isCancelled cancelled between
      obtain ⟨rfl, rfl, rfl⟩ := idle afterwards
      rw [List.append_nil, List.append_nil] at *
      exact call.stopping (by simp) cancelled (Nat.le_refl 1)

/-- Calls get through their stream in this way. -/
theorem HandsOut.hearing {reader : Reader} {bodies : List Bytes} {ending : Reading}
    (hands : reader.HandsOut bodies ending) :
    ∃ passed met rest, Hearing reader bodies ending passed met rest ∧
      (reader.token.isCancelled → bodies = [] ∧ passed = [] ∧ met = []) := by
  induction hands with
  | @stopped reader after ending read noMessage =>
    cases next_eq_iff.mp read with
    | cancelled observed => exact ⟨[], [], reader.source, hearing_cancelled observed, fun _ => ⟨rfl, rfl, rfl⟩⟩
    | @read _ _ passed met live call =>
      exact ⟨passed, met, after.source, call.hearing live noMessage, fun cancelled => absurd cancelled live⟩
  | @message reader after body bodies ending read later inductionHypothesis =>
    cases next_eq_iff.mp read with
    | @read _ _ passed met live call =>
      obtain ⟨further, met', rest, hearing, idle⟩ := inductionHypothesis
      exact ⟨passed ++ further, met', rest, call.hearing_message live hearing idle,
        fun cancelled => absurd cancelled live⟩

end

end Reader

end LspProxy.Frame
