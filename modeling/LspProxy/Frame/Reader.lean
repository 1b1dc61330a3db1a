import LspProxy.Frame.Codec
import LspProxy.Stream.Source

/-!
# Reading messages off a stream

A reader holds the bytes that have arrived and belong to no message handed out yet. A call first
looks for a message in them and touches the stream only when there is none. Whatever ends a call
(a message, a failure, the end of the stream, a caller who gives up), the bytes that have arrived
are either handed out or still held.
-/
namespace LspProxy.Frame

/-- How a call for the next message ends. -/
inductive Reading where
  /-- The next message. -/
  | message (body : Bytes)
  /-- The stream ended with this many bytes in no message. -/
  | closed (residual : Nat)
  /-- A read failed. -/
  | failed (failure : Failure)
  /-- The session was found cancelled. -/
  | cancelled
  /-- The caller gave the call up. -/
  | abandoned
  deriving Repr, DecidableEq

/-- A reader between calls: the bytes it holds, the stream behind it and the cancellation it
heeds. -/
structure Reader where
  buffer : Bytes := []
  source : Source
  token : Token := .unheeded
  deriving Repr

namespace Reader

/-- A call under way. The cancellation is looked at again only after the stream was not ready. -/
def resume (buffer : Bytes) (token : Token) (source : Source) : Reading × Reader :=
  match decode buffer with
  | some (body, rest) => (.message body, ⟨rest, source, token⟩)
  | none =>
    match source with
    | [] => (.closed buffer.length, ⟨buffer, [], token⟩)
    | .data [] :: later => (.closed buffer.length, ⟨buffer, later, token⟩)
    | .data (first :: others) :: later => resume (buffer ++ first :: others) token later
    | .failure failure :: later =>
      if failure.isInterrupted then resume buffer token later
      else (.failed failure, ⟨buffer, later, token⟩)
    | .waiting :: later =>
      if token.isCancelled then (.cancelled, ⟨buffer, later, token⟩)
      else resume buffer token later
    | .cancellation :: later => resume buffer token.cancel later
    | .abandoned :: later => (.abandoned, ⟨buffer, later, token⟩)

/-- One call for the next message. A session already cancelled is not read for. -/
def next (reader : Reader) : Reading × Reader :=
  if reader.token.isCancelled then (.cancelled, reader)
  else resume reader.buffer reader.token reader.source

/-- The bytes that a reader can still hand out. -/
def remaining (reader : Reader) : Nat := reader.buffer.length + reader.source.bytes.length

theorem resume_remaining {buffer : Bytes} {token : Token} {source : Source} {body : Bytes}
    {after : Reader} (read : resume buffer token source = (.message body, after)) :
    after.remaining < buffer.length + source.bytes.length := by
  fun_induction resume buffer token source with
  | case1 buffer token source handed rest decoded =>
    have shorter := decode_length decoded
    simp only [Prod.mk.injEq] at read
    rw [← read.2]
    simp only [remaining]
    omega
  | case4 buffer token first others later nothing inductionHypothesis =>
    have bound := inductionHypothesis read
    simp only [List.length_append, Source.bytes, List.flatMap_cons] at bound ⊢
    omega
  | _ => simp_all [Source.bytes]

/-- Every message handed out is taken from what was left. -/
theorem next_remaining {reader after : Reader} {body : Bytes}
    (read : reader.next = (.message body, after)) : after.remaining < reader.remaining := by
  unfold next at read
  split at read
  · simp at read
  · exact resume_remaining read

/-- So many calls, each with the bytes held after it. -/
def calls (reader : Reader) : Nat → List (Reading × Reader)
  | 0 => []
  | n + 1 =>
    let step := reader.next
    step :: calls step.2 n

end Reader

/-- The wording of the ways in which a call fails. -/
def Reading.message? : Reading → Option String
  | .closed residual =>
    some ("connection closed (" ++ toString residual ++ " unframed bytes pending)")
  | .failed failure => some ("frame I/O error: " ++ failure.message)
  | _ => none

end LspProxy.Frame
