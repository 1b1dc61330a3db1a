import LspProxy.Channel.Connection
import LspProxy.Message.Interceptor
import LspProxy.Parent.Probe
import LspProxy.Parent.Watch
import LspProxy.Relay.Copy
import LspProxy.Relay.MessageLog
import LspProxy.Session.Outcome
import LspProxy.Settings.Basic
import LspProxy.Stream.Pipe
import LspProxy.Stream.Sink

/-!
# The state of a session

A session is several tasks around one server: the run itself, a relay for each of the server's two
output streams, a relay for the client's messages, and the watch over the parent. Each is at one of a
few stages, and between them lie pipes of limited size. There are three cancellations, one inside the
other: whoever cancels the proxy cancels the session, and whoever cancels the session stops the
reading of the client's messages.
-/
namespace LspProxy.Session

/-- What has become of the server. -/
inductive Server where
  | running
  /-- It has ended, and its status has not been asked for. -/
  | ended (status : ExitStatus)
  /-- Its status has been asked for, so nothing of it is left. -/
  | reaped (status : ExitStatus)
  deriving Repr, DecidableEq

/-- A copy of one of the server's output streams. -/
inductive Copying where
  /-- So many bytes have been passed on. -/
  | running (count : Nat)
  | finished (result : Except Failure Relay.Totals)

/-- The frames that one message of the client comes to, on their way to the server. -/
structure Batch where
  /-- The frame being written. -/
  frame : Bytes
  /-- The part of it that is not written. -/
  rest : Bytes
  /-- The bodies that follow. -/
  later : List Bytes
  outcome : Message.Outcome
  /-- The bytes of the frames that are written in full. -/
  sent : Nat := 0
  deriving Repr

/-- How far the relay of the client's messages is. -/
inductive Forwarding where
  | reading
  | sending (batch : Batch)
  | finished (result : Except Failure Relay.Totals)

/-- The relay of the client's messages. -/
structure Forwarder where
  stage : Forwarding := .reading
  /-- The bytes that have arrived and belong to no message yet. -/
  buffer : Bytes := []
  interceptor : Message.Interceptor
  log : Relay.MessageLog
  totals : Relay.Totals := {}

/-- How far the watch over the parent is. -/
inductive Monitor where
  /-- The parent is not watched. -/
  | absent
  /-- It has yet to begin. -/
  | fresh (interval : Duration)
  /-- It is about to ask. -/
  | asking (interval : Duration) (parent checks : Nat)
  /-- It waits for the next question. -/
  | resting (interval : Duration) (parent checks : Nat) (wake : Nat)
  | finished (verdict : Parent.Verdict)
  deriving Repr, DecidableEq

/-- Why a session ends before the server is connected. -/
inductive Setback where
  | fault (fault : Channel.Fault)
  | exited (status : ExitStatus)
  | cancelled
  deriving Repr, DecidableEq

/-- What the run waits for. -/
inductive Phase where
  /-- The connection, the end of the server or a cancellation, whichever is first. -/
  | starting
  /-- After a setback: the server, which has been stopped. -/
  | stopping (setback : Setback)
  /-- After a setback: the rest of the server's error output. -/
  | closing (setback : Setback)
  /-- The message log, which is being opened. -/
  | opening
  /-- The end of the server's output. -/
  | draining
  /-- The end of the server's error output. -/
  | drainingErrors
  /-- The relay of the client's messages, which has been cancelled. -/
  | drainingInput
  /-- The end of the server, or a cancellation. -/
  | waiting
  /-- The server, which has been stopped because of a cancellation. -/
  | stoppingLate
  /-- The watch over the parent. -/
  | concluding (status : Option ExitStatus)
  | returned (result : Except Fault Outcome)

/-- A session. -/
structure State where
  settings : Settings
  workspace : Workspace
  probe : Parent.Probe
  disk : Disk
  /-- The time since the start, in nanoseconds. -/
  clock : Nat := 0
  /-- From the client to the proxy. -/
  client : Pipe
  /-- From the proxy to the server. -/
  toServer : Pipe
  /-- From the server to the proxy. -/
  fromServer : Pipe
  /-- The server's error output. -/
  errors : Pipe
  /-- What the client gets of the server's output. -/
  clientOutput : Sink := {}
  /-- What the client gets of the server's error output. -/
  clientErrors : Sink := {}
  /-- The proxy was cancelled from outside. -/
  outerCancelled : Bool := false
  /-- The session cancelled itself. -/
  ownCancelled : Bool := false
  /-- The reading of the client's messages was stopped. -/
  inputStopped : Bool := false
  server : Server := .running
  /-- What was prepared for the connection, until it is made or given up. -/
  prepared : Option Channel.Prepared
  /-- The first connection to the channel, or why it was not accepted. -/
  connection : Option (Except Failure Unit) := none
  phase : Phase := .starting
  /-- The relay of the server's error output, which starts with the server. -/
  errorRelay : Copying := .running 0
  /-- The relay of the server's output, once it has started. -/
  outputRelay : Option Copying := none
  /-- The relay of the client's messages, once it has started. -/
  inputRelay : Option Forwarder := none
  monitor : Monitor
  events : List Log.Event := []

namespace State

/-- The session is cancelled. -/
def cancelled (state : State) : Bool := state.outerCancelled || state.ownCancelled

/-- The client's messages are no longer read. -/
def inputCancelled (state : State) : Bool := state.cancelled || state.inputStopped

/-- Cancel the session. The proxy around it is not cancelled. -/
def cancel (state : State) : State := { state with ownCancelled := true }

/-- Add reports. -/
def add (state : State) (events : List Log.Event) : State :=
  { state with events := state.events ++ events }

/-- Add a report. -/
def report (state : State) (level : Log.Level) (message : String)
    (fields : List (String × Log.Value) := []) : State :=
  state.add [⟨level, message, fields⟩]

/-- The relay of the server's output has started and ended. -/
def outputEnded (state : State) : Bool :=
  match state.outputRelay with
  | some (.finished _) => true
  | _ => false

/-- The relay of the client's messages has started and ended. -/
def inputEnded (state : State) : Bool :=
  match state.inputRelay with
  | some { stage := .finished _, .. } => true
  | _ => false

/-- The relay of the client's messages has ended in order. -/
def inputEndedWell (state : State) : Bool :=
  match state.inputRelay with
  | some { stage := .finished (.ok _), .. } => true
  | _ => false

/-- Close the proxy's ends of the connection that nobody uses any more. The two directions of standard
streams are closed one by one. Those of a channel are one connection: its way to the server is closed
early only by a relay that ended in order, and all of it once both relays have ended. -/
def closeStreams (state : State) : State :=
  let separate := state.settings.endpoint = .standard
  { state with
    toServer :=
      if state.inputEnded ∧ (separate ∨ state.outputEnded ∨ state.inputEndedWell) then
        state.toServer.hangUp
      else state.toServer
    fromServer :=
      if state.outputEnded ∧ (separate ∨ state.inputEnded) then state.fromServer.abandon
      else state.fromServer }

end State

end LspProxy.Session
