import LspProxy.Proofs.Frame.Reading

/-!
# Calls that fail or are given up

A reader is called again and again, and any of its calls may fail, be given up or find the end of the
stream. What a call takes off the stream it adds to the bytes held, and only a message takes something
off them (`next_settles`). So the messages handed out by all calls, and behind them those that the held
bytes still contain, are at all times the messages of the bytes that the stream has handed out
(`calls_lose_nothing`).

The observation that carries the argument is what one call leaves of the stream. No assumption is made
about the calls before it.
-/
namespace LspProxy.Frame

/-- The message that a call hands out, if it does. -/
def Reading.body? : Reading → Option Bytes
  | .message body => some body
  | _ => none

/-- What a call does with the bytes that the stream hands out during it. They come behind those held
before; a message is decoded from all of them, and without a message they are all held. -/
def Reading.Settles (held : Bytes) (after : Reader) : Reading → Prop
  | .message body => decode held = some (body, after.buffer)
  | _ => after.buffer = held

namespace Reader

/-- The messages that calls have handed out, in order. -/
def handedOut (made : List (Reading × Reader)) : List Bytes := made.filterMap (·.1.body?)

/-- The reader that the next call is made of. -/
def latest (start : Reader) (made : List (Reading × Reader)) : Reader :=
  (made.getLast?.map Prod.snd).getD start

/-- All bytes that a stream has handed out are accounted for: their messages are those handed out by
calls, and behind them those of the bytes held, with the same residual. -/
def Accounts (source : Source) (bodies : List Bytes) (reader : Reader) : Prop :=
  ∃ handed, source = handed ++ reader.source ∧
    drain (Source.bytes handed) = (bodies ++ (drain reader.buffer).1, (drain reader.buffer).2)

/-- One call more is a call of the reader that the calls before it have left. -/
theorem calls_succ (start : Reader) (count : Nat) :
    start.calls (count + 1) =
      start.calls count ++ [(latest start (start.calls count)).next] := by
  induction count generalizing start with
  | zero => rfl
  | succ count inductionHypothesis =>
    have later := inductionHypothesis start.next.2
    have first (more : Nat) : start.calls (more + 1) = start.next :: start.next.2.calls more := rfl
    have same : latest start (start.calls (count + 1)) =
        latest start.next.2 (start.next.2.calls count) := by
      rw [first]
      unfold latest
      cases start.next.2.calls count with
      | nil => rfl
      | cons call others =>
        rw [List.getLast?_cons_cons, List.getLast?_eq_some_getLast (List.cons_ne_nil call others)]
        rfl
    rw [same, first, first, later, List.cons_append]

/-- The next call after one more is made of the reader that this one has left. -/
theorem latest_succ (start : Reader) (count : Nat) :
    latest start (start.calls (count + 1)) = (latest start (start.calls count)).next.2 := by
  rw [calls_succ]
  generalize latest start (start.calls count) = before
  unfold latest
  rw [List.getLast?_concat]
  rfl

/-- What one call more hands out comes behind what the others have. -/
theorem handedOut_succ (start : Reader) (count : Nat) :
    handedOut (start.calls (count + 1)) =
      handedOut (start.calls count) ++ (latest start (start.calls count)).next.1.body?.toList := by
  rw [calls_succ]
  unfold handedOut
  rw [List.filterMap_append]
  cases found : (latest start (start.calls count)).next.1.body? <;> simp [found]

/-- What a call ends at hands out no bytes, and settles those that have come to be held. -/
theorem Halts.settles {reading : Reading} {held : Bytes} {token : Token} {met : Source} {after : Reader}
    (halts : Halts held token met reading after) :
    Source.bytes met = [] ∧ reading.Settles held after := by
  cases halts with
  | message decoded later => exact ⟨rfl, decoded⟩
  | _ => exact ⟨rfl, rfl⟩

/-- A call takes a beginning of the stream, and settles what is in it. -/
theorem next_settles {reader after : Reader} {reading : Reading}
    (read : reader.next = (reading, after)) :
    ∃ taken, reader.source = taken ++ after.source ∧
      reading.Settles (reader.buffer ++ Source.bytes taken) after := by
  cases next_eq_iff.mp read with
  | cancelled observed => exact ⟨[], rfl, (List.append_nil _).symm⟩
  | @read _ _ passed met live call =>
    obtain ⟨nothing, settles⟩ := call.halts.settles
    refine ⟨passed ++ met, by rw [call.parts, List.append_assoc], ?_⟩
    rwa [Source.bytes_append, nothing, List.append_nil]

/-- A call whose buffer holds a message hands it out and leaves the stream as it is. -/
theorem next_of_decode {reader : Reader} {body rest : Bytes}
    (live : reader.token.isCancelled = false) (decoded : decode reader.buffer = some (body, rest)) :
    reader.next = (.message body, { reader with buffer := rest }) := by
  unfold next
  rw [live, resume.eq_def, decoded]
  rfl

/-- A call ends with the end of the stream only where a read finds it, and holds no message then. -/
theorem next_closed_cases {reader after : Reader} {residual : Nat}
    (read : reader.next = (.closed residual, after)) :
    residual = after.buffer.length ∧ decode after.buffer = none ∧
      (after.source = [] ∨ ∃ earlier, reader.source = earlier ++ .data [] :: after.source) := by
  cases next_eq_iff.mp read with
  | @read _ _ passed met live call =>
    obtain ⟨parts, past, halts⟩ := call
    cases halts with
    | exhausted nothing => exact ⟨rfl, nothing, .inl rfl⟩
    | ended nothing later => exact ⟨rfl, nothing, .inr ⟨passed, parts⟩⟩

/-- A read that is interrupted is not what a call fails with. -/
theorem next_failed {reader after : Reader} {failure : Failure}
    (read : reader.next = (.failed failure, after)) : ¬ failure.isInterrupted := by
  cases next_eq_iff.mp read with
  | read live call =>
    cases call.halts with
    | failed nothing lasting later => exact lasting

/-- A call keeps the account. The bytes that it takes off the stream drain from the residual of those
before, and a message that it hands out is the first of those that were held. -/
theorem Accounts.next {source : Source} {bodies : List Bytes} {reader after : Reader}
    {reading : Reading} (accounts : Accounts source bodies reader)
    (read : reader.next = (reading, after)) :
    Accounts source (bodies ++ reading.body?.toList) after := by
  obtain ⟨handed, parts, drained⟩ := accounts
  obtain ⟨taken, shorter, settles⟩ := next_settles read
  refine ⟨handed ++ taken, by rw [parts, shorter, List.append_assoc], ?_⟩
  have held : drain (Source.bytes (handed ++ taken)) =
      (bodies ++ (drain (reader.buffer ++ Source.bytes taken)).1,
        (drain (reader.buffer ++ Source.bytes taken)).2) := by
    rw [Source.bytes_append, drain_append, drained, drain_append reader.buffer, List.append_assoc]
  rw [held]
  cases reading with
  | message body =>
    rw [drain_of_some settles]
    simp [Reading.body?]
  | closed residual | failed failure | cancelled | abandoned =>
    have kept : after.buffer = reader.buffer ++ Source.bytes taken := settles
    rw [← kept]
    simp [Reading.body?]

/-- The account after so many calls. The induction is on their number: each call is made of the reader
that the others have left. -/
theorem calls_accounts (source : Source) (token : Token) (count : Nat) :
    Accounts source (handedOut (calls { source, token } count))
      (latest { source, token } (calls { source, token } count)) := by
  induction count with
  | zero =>
    have nothing : drain [] = ([], []) := drain_of_none rfl
    refine ⟨[], rfl, ?_⟩
    change drain [] = ([] ++ (drain []).1, (drain []).2)
    rw [nothing]
    rfl
  | succ count inductionHypothesis =>
    rw [latest_succ, handedOut_succ]
    exact inductionHypothesis.next rfl

/-- Calls lose, repeat and reorder nothing, whatever becomes of them: each may hand out a message, fail,
be given up where it waits, or find the end of the stream. After any number of them, one call more is
made of the reader as the last has left it, and

- it answers as its stream leads it to: it gets past what does not end it, in order, and halts where a
  message is complete, a read ends or fails, the caller gives up, or a cancelled session is found out;
- all bytes that the stream has handed out are accounted for;
- what the call takes off the stream comes behind the bytes held before, and unless it hands out a
  message decoded from them, all of them are held for the next call;
- if the bytes held contain a message, the call hands it out and leaves the stream alone;
- an interrupted read does not surface;
- the end of the stream is reported only where a read finds it, with the number of the bytes held, and
  no message can be decoded from them. -/
theorem calls_lose_nothing (source : Source) (token : Token) (count : Nat) :
    let start : Reader := { source, token }
    let before := latest start (start.calls count)
    let reading := before.next.1
    let after := before.next.2
    start.calls (count + 1) = start.calls count ++ [(reading, after)] ∧
      before.Answers reading after ∧
      Accounts source (handedOut (start.calls (count + 1))) after ∧
      (∃ taken, before.source = taken ++ after.source ∧
        reading.Settles (before.buffer ++ Source.bytes taken) after) ∧
      (before.token.isCancelled = false → ∀ body rest, decode before.buffer = some (body, rest) →
        reading = .message body ∧ after = { before with buffer := rest }) ∧
      (∀ failure, reading = .failed failure → ¬ failure.isInterrupted) ∧
      (∀ residual, reading = .closed residual →
        residual = after.buffer.length ∧ decode after.buffer = none ∧
          (after.source = [] ∨ ∃ earlier, before.source = earlier ++ .data [] :: after.source)) := by
  intro start before reading after
  have read : before.next = (reading, after) := rfl
  have made : start.calls (count + 1) = start.calls count ++ [(reading, after)] :=
    calls_succ start count
  have accounts := calls_accounts source token (count + 1)
  change Accounts source _ (latest start (start.calls (count + 1))) at accounts
  have last : latest start (start.calls (count + 1)) = after := by
    unfold latest
    rw [made, List.getLast?_concat]
    rfl
  rw [last] at accounts
  refine ⟨made, next_eq_iff.mp read, accounts, next_settles read, ?_, ?_, ?_⟩
  · intro live body rest decoded
    exact Prod.mk.inj (read.symm.trans (next_of_decode live decoded))
  · intro failure failed
    exact next_failed (failed ▸ read)
  · intro residual closed
    exact next_closed_cases (closed ▸ read)

/-- A frame in three reads, with a call given up and a failure between them. -/
example :
    let source : Source := [.data (Bytes.ascii "Content-Len"), .abandoned,
      .data (Bytes.ascii "gth: 2\r\n\r\na"), .failure (.plain .brokenPipe), .data (Bytes.ascii "bc")]
    (calls { source } 4).map Prod.fst =
      [.abandoned, .failed (.plain .brokenPipe), .message (Bytes.ascii "ab"), .closed 1] := by
  decide +kernel

end Reader

end LspProxy.Frame
