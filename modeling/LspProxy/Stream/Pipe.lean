import LspProxy.Bytes
import LspProxy.Failure

/-!
# Pipes

One direction of a stream between two processes. What is written stays in the pipe until it is read,
and the pipe holds only so much: a write takes place only while there is room or nobody is left to
read, and a read only while there is something to find. Each end may be closed. A reader who comes
after the last byte finds the end of the stream, or the failure that the other side left behind.
-/
namespace LspProxy

/-- One direction of a stream. -/
structure Pipe where
  /-- The bytes written and not yet read. -/
  content : Bytes := []
  /-- The most bytes it holds. -/
  capacity : Nat
  /-- Somebody may still write. -/
  writable : Bool := true
  /-- Somebody may still read. -/
  readable : Bool := true
  /-- A failure that one read finds after the last byte. -/
  broken : Option Failure := none
  deriving Repr, DecidableEq

namespace Pipe

/-- What a read finds. -/
inductive Finding where
  /-- Nothing yet. -/
  | nothing
  | data (bytes : Bytes)
  | failed (failure : Failure)
  | ended
  deriving Repr, DecidableEq

/-- What a write comes to. -/
inductive Reception where
  /-- There is no room yet. -/
  | blocked
  /-- A part was taken; the rest is still to be written. -/
  | taken (rest : Bytes)
  | refused (failure : Failure)
  deriving Repr, DecidableEq

/-- The bytes that still fit. -/
def room (pipe : Pipe) : Nat := pipe.capacity - pipe.content.length

/-- Read at most so many bytes. -/
def fetch (pipe : Pipe) (limit : Nat) : Finding × Pipe :=
  match pipe.content, pipe.broken with
  | first :: others, _ =>
    (.data ((first :: others).take limit), { pipe with content := (first :: others).drop limit })
  | [], some failure => (.failed failure, { pipe with broken := none })
  | [], none => (if pipe.writable then .nothing else .ended, pipe)

/-- Write as much as fits. -/
def push (pipe : Pipe) (bytes : Bytes) : Reception × Pipe :=
  if ¬ pipe.readable then (.refused (.system ErrorNumber.brokenPipe), pipe)
  else if pipe.room = 0 ∧ bytes ≠ [] then (.blocked, pipe)
  else
    (.taken (bytes.drop pipe.room), { pipe with content := pipe.content ++ bytes.take pipe.room })

/-- Nobody writes any more. -/
def hangUp (pipe : Pipe) : Pipe := { pipe with writable := false }

/-- Nobody reads any more, and what was not read is lost. -/
def abandon (pipe : Pipe) : Pipe := { pipe with readable := false, content := [] }

theorem fetch_length {pipe after : Pipe} {limit : Nat} {bytes : Bytes}
    (found : pipe.fetch limit = (.data bytes, after)) (positive : 0 < limit) :
    after.content.length < pipe.content.length := by
  cases held : pipe.content with
  | nil => cases mark : pipe.broken <;> grind [fetch]
  | cons first others =>
    simp only [fetch, held, Prod.mk.injEq] at found
    simp only [← found.2, List.length_drop, List.length_cons]
    omega

/-- A write loses nothing: what was taken stands behind what was there. -/
theorem push_content {pipe after : Pipe} {bytes rest : Bytes}
    (pushed : pipe.push bytes = (.taken rest, after)) :
    after.content ++ rest = pipe.content ++ bytes := by
  unfold push at pushed
  split at pushed
  · simp at pushed
  · split at pushed
    · simp at pushed
    · simp only [Prod.mk.injEq, Reception.taken.injEq] at pushed
      simp [← pushed.1, ← pushed.2]

end Pipe

end LspProxy
