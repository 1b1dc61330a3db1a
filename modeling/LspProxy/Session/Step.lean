import LspProxy.Session.Run

/-!
# Steps of a session

A session goes on by turns of its tasks and by what its surroundings do: the server and whoever else
is at the far end of its streams, the client, time, and those who cancel the proxy. Nothing is assumed
about their order. `State.advance` and `State.meet` say what each of them does to the session;
neither is defined where it cannot take place. `Reachable` collects the states that some order of them
leads to.
-/
namespace LspProxy.Session

/-- The tasks of a session. -/
inductive Task where
  | run
  /-- The run, when it no longer waits for the server. -/
  | giveUp
  | errorRelay
  | outputRelay
  | inputRelay
  | watch
  /-- The watch, at the end of a wait. -/
  | wake
  deriving Repr, DecidableEq

/-- What the surroundings of a session do. -/
inductive Move where
  /-- Bytes sent to the server are read. -/
  | serverReads (count : Nat)
  /-- Nobody reads any more what is sent to the server. -/
  | serverStopsReading
  /-- The server writes output. -/
  | serverWrites (bytes : Bytes)
  /-- The server's output ends; bytes that it has left unread may make it end in a failure. -/
  | serverStopsWriting (failure : Option Failure)
  /-- The server writes to its error output. -/
  | serverComplains (bytes : Bytes)
  /-- The server's error output ends. -/
  | serverFallsSilent
  /-- The server itself ends. What it has started may still hold its streams. -/
  | serverEnds (status : ExitStatus)
  /-- A connection to the channel arrives, or fails. -/
  | connects (connection : Except Failure Unit)
  | clientWrites (bytes : Bytes)
  | clientStopsWriting
  /-- The proxy is cancelled from outside. -/
  | cancels
  /-- Time passes, in nanoseconds. -/
  | timePasses (time : Nat)
  /-- Files change. -/
  | filesChange (disk : Disk)

namespace State

/-- The next turn of a task. -/
def advance (state : State) : Task → Option State
  | .run => state.proceed
  | .giveUp => state.giveUp
  | .errorRelay => state.copyErrors
  | .outputRelay => state.copyOutput
  | .inputRelay => state.forward
  | .watch => state.watch
  | .wake => state.wake

/-- Bytes put into a pipe that has room for all of them. -/
def fill? (pipe : Pipe) (bytes : Bytes) : Option Pipe :=
  if pipe.writable ∧ pipe.readable ∧ bytes.length ≤ pipe.room then
    some { pipe with content := pipe.content ++ bytes }
  else none

/-- What a move does to the session. -/
def meet (state : State) : Move → Option State
  | .serverReads count =>
    if count ≤ state.toServer.content.length then
      some { state with toServer := (state.toServer.fetch count).2 }
    else none
  | .serverStopsReading => some { state with toServer := state.toServer.abandon }
  | .serverWrites bytes => do return { state with fromServer := ← fill? state.fromServer bytes }
  | .serverStopsWriting failure =>
    some { state with fromServer := { state.fromServer.hangUp with broken := failure } }
  | .serverComplains bytes => do return { state with errors := ← fill? state.errors bytes }
  | .serverFallsSilent => some { state with errors := state.errors.hangUp }
  | .serverEnds status =>
    match state.server with
    | .running => some { state with server := .ended status }
    | _ => none
  | .connects connection =>
    match state.prepared, state.connection with
    | some (.listening _), none => some { state with connection := some connection }
    | _, _ => none
  | .clientWrites bytes => do return { state with client := ← fill? state.client bytes }
  | .clientStopsWriting => some { state with client := state.client.hangUp }
  | .cancels => some { state with outerCancelled := true }
  | .timePasses time => some { state with clock := state.clock + time }
  | .filesChange disk => some { state with disk }

end State

/-- One step of a session: the turn of a task, or a move of its surroundings. -/
inductive Step (state after : State) : Prop where
  | turn (task : Task) (advanced : state.advance task = some after)
  | move (move : Move) (met : state.meet move = some after)

/-- The states that a session comes through from its start. -/
inductive Reachable (start : State) : State → Prop where
  | start : Reachable start start
  | step {state after : State} (before : Reachable start state) (step : Step state after) :
    Reachable start after

theorem Reachable.trans {start middle state : State} (first : Reachable start middle)
    (second : Reachable middle state) : Reachable start state := by
  induction second with
  | start => exact first
  | step _ step inductionHypothesis => exact .step inductionHypothesis step

end LspProxy.Session
