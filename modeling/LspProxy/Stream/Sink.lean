import LspProxy.Bytes
import LspProxy.Failure

/-!
# What a writer meets

A sink takes bytes in portions of its own choosing: interruptions before it takes anything, a
schedule that says write by write how much is taken or how it fails, a bound on each write after
that, a bound on the total after which it takes nothing more or fails, flushes that fail after some
that succeed, and a failing shutdown. Since a run makes finitely many writes, schedules make up
every behaviour of a sink. It keeps what it has seen, so that statements about what reaches the
other side are statements about `accepted`.

`writeAll` is the loop around single writes: it repeats interrupted ones, goes on after short ones,
and takes a write that accepts nothing for a failure.
-/
namespace LspProxy

/-- One thing a sink has seen succeed. -/
inductive SinkEvent where
  | wrote (bytes : Bytes)
  | flushed
  | shut
  deriving Repr, DecidableEq

/-- What happens to one write, where that is laid down write by write. -/
inductive Turn where
  /-- It takes at most so many bytes. -/
  | takes (bound : Nat)
  | fails (failure : Failure)
  deriving Repr, DecidableEq

/-- A sink with its behaviour to come and what it has seen so far. -/
structure Sink where
  /-- The most bytes one write takes, if there is a bound. -/
  chunk : Option Nat := none
  /-- What happens to the next writes, before `chunk` bounds them. -/
  turns : List Turn := []
  /-- The bytes it still takes in all, if there is a bound. -/
  room : Option Nat := none
  /-- How writes fail once the room is used up; without a failure they take nothing. -/
  full : Option Failure := none
  /-- The writes still to be interrupted. -/
  interruptions : Nat := 0
  /-- The failure of flushes, if they fail. -/
  flushFailure : Option Failure := none
  /-- The flushes that succeed before they fail. -/
  flushes : Nat := 0
  /-- The failure of the shutdown, if it fails. -/
  shutdownFailure : Option Failure := none
  /-- What it has seen, newest first. -/
  seen : List SinkEvent := []
  deriving Repr

namespace Sink

/-- The answer to one write: the part that was taken, or a failure. -/
abbrev WriteAnswer := Except Failure Bytes

/-- As many of the bytes as a bound allows. -/
def within : Option Nat → Bytes → Bytes
  | none, bytes => bytes
  | some bound, bytes => bytes.take bound

/-- Take what the room and a bound leave of the bytes. -/
def absorb (sink : Sink) (bound : Option Nat) (bytes : Bytes) : WriteAnswer × Sink :=
  match sink.room, sink.full with
  | some 0, some failure => (.error failure, sink)
  | _, _ =>
    let taken := within bound (within sink.room bytes)
    if taken.isEmpty then (.ok [], sink)
    else
      (.ok taken,
        { sink with
          room := sink.room.map (· - taken.length)
          seen := .wrote taken :: sink.seen })

/-- One write. -/
def write (sink : Sink) (bytes : Bytes) : WriteAnswer × Sink :=
  match sink.interruptions, sink.turns with
  | n + 1, _ => (.error (.plain .interrupted), { sink with interruptions := n })
  | 0, .fails failure :: later => (.error failure, { sink with turns := later })
  | 0, .takes bound :: later => { sink with turns := later }.absorb (some bound) bytes
  | 0, [] => sink.absorb sink.chunk bytes

/-- The writes whose behaviour is still laid down one by one. -/
def scheduled (sink : Sink) : Nat := sink.interruptions + sink.turns.length

/-- Write all of the bytes. An interrupted write is made again; one that takes nothing is a
failure. -/
def writeAll (sink : Sink) (bytes : Bytes) : Except Failure Unit × Sink :=
  match bytes with
  | [] => (.ok (), sink)
  | first :: others =>
    match sink.write (first :: others) with
    | (.error failure, after) =>
      if failure.isInterrupted ∧ after.scheduled < sink.scheduled then
        writeAll after (first :: others)
      else (.error failure, after)
    | (.ok [], after) => (.error (.plain .writeZero), after)
    | (.ok (_ :: taken), after) => writeAll after (others.drop taken.length)
termination_by (bytes.length, sink.scheduled)
decreasing_by
  · simp only [List.length_cons]; apply Prod.Lex.right; omega
  · apply Prod.Lex.left; simp only [List.length_drop, List.length_cons]; omega

/-- One flush. -/
def flush (sink : Sink) : Except Failure Unit × Sink :=
  match sink.flushFailure, sink.flushes with
  | some failure, 0 => (.error failure, sink)
  | _, _ => (.ok (), { sink with flushes := sink.flushes - 1, seen := .flushed :: sink.seen })

/-- Close the sink. -/
def shutdown (sink : Sink) : Except Failure Unit × Sink :=
  match sink.shutdownFailure with
  | some failure => (.error failure, sink)
  | none => (.ok (), { sink with seen := .shut :: sink.seen })

/-- Adjacent writes as one, oldest first: how a sink's caller cuts its writes cannot be seen
behind a stream of bytes. -/
def merge : List SinkEvent → List SinkEvent → List SinkEvent
  | [], merged => merged
  | .wrote bytes :: older, .wrote later :: merged => merge older (.wrote (bytes ++ later) :: merged)
  | event :: older, merged => merge older (event :: merged)

/-- What the sink has seen, oldest first, adjacent writes as one. -/
def events (sink : Sink) : List SinkEvent := merge sink.seen []

/-- All bytes the sink has taken. -/
def accepted (sink : Sink) : Bytes :=
  sink.seen.reverse.flatMap fun event =>
    match event with
    | .wrote bytes => bytes
    | _ => []

end Sink

end LspProxy
