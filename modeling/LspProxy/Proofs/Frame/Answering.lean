import LspProxy.Frame.Reader
import LspProxy.Proofs.Frame.Decoding

/-!
# What a call answers

A call gets past one thing after the other (`GetsPast`), as long as the bytes that have come to be held
decode to nothing, nothing ends it, and it need not wait in a cancelled session. Where it cannot go on, it
halts, with the answer that what it meets there calls for (`Halts`). So a call splits its stream into what it
gets past, what it ends at and what it leaves (`Call`), and every such split is that of a call
(`resume_eq_iff`).

The token goes along with what has been met, so that the answer of a call says which cancellation it has
heeded.
-/
namespace LspProxy

/-- A read gets past it, and the call that makes the read goes on. -/
def Arrival.Passes : Arrival → Prop
  | .data bytes => bytes ≠ []
  | .failure cause => cause.isInterrupted
  | .waiting | .cancellation => True
  | .abandoned => False

namespace Source

theorem bytes_append (front back : Source) : bytes (front ++ back) = bytes front ++ bytes back :=
  List.flatMap_append

theorem bytes_cons (arrival : Arrival) (later : Source) :
    Source.bytes (arrival :: later) = Source.bytes [arrival] ++ Source.bytes later :=
  bytes_append [arrival] later

theorem bytes_data_cons (bytes : Bytes) (later : Source) :
    Source.bytes (.data bytes :: later) = bytes ++ Source.bytes later :=
  List.flatMap_cons

end Source

/-- The token of a reader once it has met one thing more. -/
def Token.meet (token : Token) : Arrival → Token
  | .cancellation => token.cancel
  | _ => token

/-- The token of a reader that has met all of this. -/
def Token.after (token : Token) (met : Source) : Token := met.foldl Token.meet token

/-- A session that has been cancelled stays cancelled. -/
theorem Token.meet_isCancelled {token : Token} (cancelled : token.isCancelled) (arrival : Arrival) :
    (token.meet arrival).isCancelled := by
  obtain rfl := of_decide_eq_true cancelled
  cases arrival <;> rfl

theorem Token.after_append (token : Token) (front back : Source) :
    token.after (front ++ back) = (token.after front).after back :=
  List.foldl_append

/-- A session that has been cancelled stays cancelled, whatever is met. -/
theorem Token.after_isCancelled {token : Token} (cancelled : token.isCancelled) (met : Source) :
    (token.after met).isCancelled := by
  induction met generalizing token with
  | nil => exact cancelled
  | cons arrival later inductionHypothesis => exact inductionHypothesis (meet_isCancelled cancelled arrival)

namespace Frame

/-- What a call, holding these bytes and with this token, gets past next: it holds no message, nothing ends
it, and it does not wait in a cancelled session. -/
def Reader.Bears (held : Bytes) (token : Token) (arrival : Arrival) : Prop :=
  decode held = none ∧ arrival.Passes ∧ (arrival = .waiting → ¬token.isCancelled)

/-- A call gets past all of this, one thing after the other. -/
def Reader.GetsPast (held : Bytes) (token : Token) : Source → Prop
  | [] => True
  | arrival :: later =>
    Bears held token arrival ∧ GetsPast (held ++ Source.bytes [arrival]) (token.meet arrival) later

namespace Reader

section

variable {held : Bytes} {token : Token} {arrival : Arrival} {passed met source : Source} {reading : Reading}
  {after : Reader}

theorem getsPast_append (front back : Source) :
    GetsPast held token (front ++ back) ↔
      GetsPast held token front ∧ GetsPast (held ++ front.bytes) (token.after front) back := by
  induction front generalizing held token with
  | nil => simp [GetsPast, Source.bytes, Token.after]
  | cons arrival front inductionHypothesis =>
    rw [List.cons_append, GetsPast, GetsPast, inductionHypothesis, Source.bytes_cons arrival front,
      ← List.append_assoc, and_assoc]
    rfl

theorem GetsPast.passes (past : GetsPast held token passed) : ∀ arrival ∈ passed, arrival.Passes := by
  induction passed generalizing held token with
  | nil => simp
  | cons arrival later inductionHypothesis =>
    exact List.forall_mem_cons.mpr ⟨past.1.2.1, inductionHypothesis past.2⟩

/-- In a cancelled session nothing is waited for. -/
theorem GetsPast.unwaiting (past : GetsPast held token passed) (cancelled : token.isCancelled) :
    .waiting ∉ passed := by
  induction passed generalizing held token with
  | nil => simp
  | cons arrival later inductionHypothesis =>
    intro member
    rcases List.mem_cons.mp member with rfl | member
    · exact past.1.2.2 rfl cancelled
    · exact inductionHypothesis past.2 (Token.meet_isCancelled cancelled arrival) member

/-- Getting past one thing puts its bytes behind those held. -/
theorem Bears.resume (bears : Bears held token arrival) (later : Source) :
    resume held token (arrival :: later) =
      resume (held ++ Source.bytes [arrival]) (token.meet arrival) later := by
  obtain ⟨nothing, passes, ready⟩ := bears
  rw [Reader.resume.eq_def held token (arrival :: later), nothing]
  cases arrival with
  | data bytes =>
    cases bytes with
    | nil => exact absurd rfl passes
    | cons first others => simp [Source.bytes, Token.meet]
  | failure cause =>
    have interrupted : cause.isInterrupted := passes
    simp [interrupted, Source.bytes, Token.meet]
  | waiting => simp [ready rfl, Source.bytes, Token.meet]
  | cancellation => simp [Source.bytes, Token.meet]
  | abandoned => exact passes.elim

/-- How a call comes to end that holds these bytes and has this token: at what it meets, with what answer, and
with what reader left. -/
inductive Halts (held : Bytes) (token : Token) : Source → Reading → Reader → Prop where
  | message {body rest : Bytes} (decoded : decode held = some (body, rest)) (later : Source) :
      Halts held token [] (.message body) ⟨rest, later, token⟩
  /-- There is nothing more to meet, which is the end of the stream. -/
  | exhausted (nothing : decode held = none) : Halts held token [] (.closed held.length) ⟨held, [], token⟩
  | ended (nothing : decode held = none) (later : Source) :
      Halts held token [.data []] (.closed held.length) ⟨held, later, token⟩
  | failed (nothing : decode held = none) {cause : Failure} (lasting : ¬cause.isInterrupted) (later : Source) :
      Halts held token [.failure cause] (.failed cause) ⟨held, later, token⟩
  | cancelled (nothing : decode held = none) (observed : token.isCancelled) (later : Source) :
      Halts held token [.waiting] .cancelled ⟨held, later, token⟩
  | abandoned (nothing : decode held = none) (later : Source) :
      Halts held token [.abandoned] .abandoned ⟨held, later, token⟩

/-- A call that ends where it stands has that answer. -/
theorem Halts.resume (halts : Halts held token met reading after) :
    resume held token (met ++ after.source) = (reading, after) := by
  rw [Reader.resume.eq_def]
  cases halts with
  | message decoded later => rw [decoded]; rfl
  | exhausted nothing => rw [nothing]; rfl
  | ended nothing later => rw [nothing]; rfl
  | failed nothing lasting later =>
    rw [nothing]
    exact if_neg lasting
  | cancelled nothing observed later =>
    rw [nothing]
    exact if_pos observed
  | abandoned nothing later => rw [nothing]; rfl

/-- A call that gets past nothing ends where it stands. -/
theorem exists_halts (stands : ∀ arrival later, source = arrival :: later → ¬Bears held token arrival) :
    ∃ met reading after, source = met ++ after.source ∧ Halts held token met reading after := by
  cases decoded : decode held with
  | some found => exact ⟨[], _, _, rfl, .message decoded source⟩
  | none =>
    cases source with
    | nil => exact ⟨[], _, _, rfl, .exhausted decoded⟩
    | cons arrival later =>
      have unborne : ¬(arrival.Passes ∧ (arrival = .waiting → ¬token.isCancelled)) :=
        fun bears => stands arrival later rfl ⟨decoded, bears⟩
      cases arrival with
      | data bytes =>
        obtain rfl : bytes = [] := Decidable.byContradiction fun some => unborne ⟨some, nofun⟩
        exact ⟨[.data []], _, _, rfl, .ended decoded later⟩
      | failure cause =>
        have lasting : ¬cause.isInterrupted := fun interrupted => unborne ⟨interrupted, nofun⟩
        exact ⟨[.failure cause], _, _, rfl, .failed decoded lasting later⟩
      | waiting =>
        have observed : token.isCancelled :=
          Decidable.byContradiction fun clear => unborne ⟨trivial, fun _ => clear⟩
        exact ⟨[.waiting], _, _, rfl, .cancelled decoded observed later⟩
      | cancellation => exact absurd ⟨trivial, nofun⟩ unborne
      | abandoned => exact ⟨[.abandoned], _, _, rfl, .abandoned decoded later⟩

/-- A call goes on behind what it gets past. -/
theorem GetsPast.resume (past : GetsPast held token passed) (later : Source) :
    resume held token (passed ++ later) = resume (held ++ passed.bytes) (token.after passed) later := by
  induction passed generalizing held token with
  | nil => simp [Source.bytes, Token.after]
  | cons arrival passed inductionHypothesis =>
    rw [List.cons_append, past.1.resume, inductionHypothesis past.2, Source.bytes_cons arrival passed,
      List.append_assoc]
    rfl

/-- Every stream begins with what a call gets past. -/
theorem exists_getsPast (held : Bytes) (token : Token) (source : Source) :
    ∃ passed later, source = passed ++ later ∧ GetsPast held token passed ∧
      ∀ arrival rest, later = arrival :: rest → ¬Bears (held ++ passed.bytes) (token.after passed) arrival := by
  induction source generalizing held token with
  | nil => exact ⟨[], [], rfl, trivial, nofun⟩
  | cons arrival source inductionHypothesis =>
    by_cases bears : Bears held token arrival
    · obtain ⟨passed, later, rfl, past, stands⟩ :=
        inductionHypothesis (held ++ Source.bytes [arrival]) (token.meet arrival)
      refine ⟨arrival :: passed, later, rfl, ⟨bears, past⟩, ?_⟩
      rw [Source.bytes_cons arrival passed, ← List.append_assoc]
      exact stands
    · refine ⟨[], arrival :: source, rfl, trivial, ?_⟩
      rintro _ _ ⟨⟩
      rwa [Source.bytes, List.flatMap_nil, List.append_nil]

/-- A call on a stream: the stream splits into what the call gets past, what it ends at and what it leaves. -/
structure Call (held : Bytes) (token : Token) (source : Source) (reading : Reading) (after : Reader)
    (passed met : Source) : Prop where
  parts : source = passed ++ (met ++ after.source)
  past : GetsPast held token passed
  halts : Halts (held ++ passed.bytes) (token.after passed) met reading after

/-- The answers of calls are those that their streams lead to in this way. -/
theorem resume_eq_iff :
    resume held token source = (reading, after) ↔ ∃ passed met, Call held token source reading after passed met := by
  constructor
  · intro read
    obtain ⟨passed, later, rfl, past, stands⟩ := exists_getsPast held token source
    obtain ⟨met, found, left, rfl, halts⟩ := exists_halts stands
    have answer := (past.resume _).trans halts.resume
    obtain ⟨rfl, rfl⟩ := Prod.mk.inj (read.symm.trans answer)
    exact ⟨passed, met, rfl, past, halts⟩
  · rintro ⟨passed, met, rfl, past, halts⟩
    exact (past.resume _).trans halts.resume

/-- The answer to a call for the next message. A session already cancelled is not read for. -/
inductive Answers (reader : Reader) : Reading → Reader → Prop where
  | cancelled (observed : reader.token.isCancelled) : Answers reader .cancelled reader
  | read {reading : Reading} {after : Reader} {passed met : Source} (live : ¬reader.token.isCancelled)
      (call : Call reader.buffer reader.token reader.source reading after passed met) :
      Answers reader reading after

theorem next_eq_iff {reader : Reader} : reader.next = (reading, after) ↔ reader.Answers reading after := by
  unfold next
  constructor
  · intro answered
    split at answered
    · rename_i observed
      obtain ⟨rfl, rfl⟩ := Prod.mk.inj answered
      exact .cancelled observed
    · rename_i live
      obtain ⟨passed, met, call⟩ := resume_eq_iff.mp answered
      exact .read live call
  · rintro (observed | ⟨live, call⟩)
    · exact if_pos observed
    · exact (if_neg live).trans (resume_eq_iff.mpr ⟨_, _, call⟩)

/-- What a call leaves does not count, unless it has found nothing more. -/
theorem Halts.elsewhere (halts : Halts held token met reading after)
    (left : met ≠ [] ∨ ∃ body, reading = .message body) (other : Source) :
    Halts held token met reading { after with source := other } := by
  cases halts with
  | message decoded later => exact .message decoded other
  | exhausted nothing => exact absurd left (by simp)
  | ended nothing later => exact .ended nothing other
  | failed nothing lasting later => exact .failed nothing lasting other
  | cancelled nothing observed later => exact .cancelled nothing observed other
  | abandoned nothing later => exact .abandoned nothing other

theorem Halts.heeds (halts : Halts held token met reading after) : after.token = token := by
  cases halts <;> rfl

/-- What a call ends at is met only when it holds no message. -/
theorem Halts.nothing (halts : Halts held token met reading after) (meets : met ≠ []) :
    met.length = 1 ∧ decode held = none := by
  cases halts with
  | message decoded later => exact absurd rfl meets
  | exhausted nothing => exact absurd rfl meets
  | _ => exact ⟨rfl, ‹_›⟩

/-- Whenever a call meets something, it holds no message. -/
theorem Call.nothing {front back : Source} (call : Call held token source reading after passed met)
    (parts : passed ++ met = front ++ back) (more : back ≠ []) : decode (held ++ front.bytes) = none := by
  rcases List.append_eq_append_iff.mp parts with ⟨between, rfl, same⟩ | ⟨between, rfl, rfl⟩
  · -- Only one thing is met at the end, so nothing of it stands in front.
    have meets : met ≠ [] := by
      rw [same]
      exact List.append_ne_nil_of_right_ne_nil between more
    obtain ⟨single, nothing⟩ := call.halts.nothing meets
    have positive := List.length_pos_iff.mpr more
    rw [same, List.length_append] at single
    obtain rfl : between = [] := List.length_eq_zero_iff.mp (by omega)
    rwa [List.append_nil]
  · obtain ⟨_, behind⟩ := (getsPast_append front between).mp call.past
    cases between with
    | nil =>
      rw [List.append_nil] at call
      exact (call.halts.nothing more).2
    | cons arrival others => exact behind.1.1

end

end Reader

end Frame

end LspProxy
