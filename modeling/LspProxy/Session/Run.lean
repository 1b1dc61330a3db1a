import LspProxy.Session.Relays

/-!
# The run of a session

The run starts the server and waits until it is connected. If that fails, if the server ends first, or
if the session is cancelled, the server is stopped where it still runs, and the rest of its error
output is passed on. Else the relays work until the server's output has ended; then the reading of the
client's messages is stopped, and the end of the server is awaited, or brought about if the session is
cancelled. Last the watch over the parent is ended.

The server's status is asked for on every way to the end, and only the outcome of the watch decides
whether the parent was lost.
-/
namespace LspProxy.Session

namespace State

/-! ## Parts of the run -/

/-- Stop the server if it still runs. -/
def kill (state : State) : State :=
  match state.server with
  | .running => { state with server := .ended (.ofSignal 9) }
  | _ => state

/-- Ask for the status of a server that has ended. -/
def reap? (state : State) : Option (ExitStatus × State) :=
  match state.server with
  | .ended status => some (status, { state with server := .reaped status })
  | _ => none

/-- Ask for the status of a server that was stopped. -/
def reapStopped? (state : State) : Option State := do
  let (status, state) ← state.reap?
  return state.report .info "server stopped" [("status", .shown status.display)]

/-- Give up what was prepared for the connection. -/
def release (state : State) : State :=
  match state.prepared with
  | none => state
  | some prepared =>
    let released := prepared.release state.disk
    { state.add released.events with disk := released.value, prepared := none }

/-- Report how a relay ended. -/
def reportRelay (state : State) (relay : String) (wording : Failure → String) :
    Except Failure Relay.Totals → State
  | .ok totals => state.report .debug "relay finished"
      [("relay", .text relay), ("end", .shown totals.ending.display),
       ("messages", .number totals.messages), ("bytes", .number totals.bytes)]
  | .error failure => state.report .warning "relay failed"
      [("relay", .text relay), ("error", .shown (wording failure))]

/-- The session after the end of the error relay, which is reported. -/
def joinErrors? (state : State) : Option State :=
  match state.errorRelay with
  | .running _ => none
  | .finished result => some (state.reportRelay "server error" Failure.message result)

/-- The session after the end of the output relay, which is reported. -/
def joinOutput? (state : State) : Option State :=
  match state.outputRelay with
  | some (.finished result) => some (state.reportRelay "server output" Failure.message result)
  | _ => none

/-- The session after the end of the input relay, which is reported. -/
def joinInput? (state : State) : Option State :=
  match state.inputRelay with
  | some { stage := .finished result, .. } =>
    some (state.reportRelay "client input" Frame.failureMessage result)
  | _ => none

/-- Start the relays of a connected server. -/
def startRelays (state : State) : State :=
  let opened := Relay.MessageLog.start state.disk state.settings.messageLog
  let (log, disk) := opened.value
  { state.add opened.events with
    disk
    outputRelay := some (.running 0)
    inputRelay := some { interceptor := { workspace := state.workspace }, log } }

/-! ## The turns -/

/-- The turn that ends the start of a session: connected, failed, the server ended, or cancelled, in
this order. -/
def leaveStart (state : State) : Option State := do
  let prospect := { connection := state.connection, waited := ⟨state.clock⟩ }
  match (← state.prepared).attempt state.settings.connectLimit prospect with
  | some attempt =>
    let after := (state.add attempt.events).release
    match attempt.value with
    | .ok () => return { after with phase := .opening }
    | .error fault => return { after.kill with phase := .stopping (.fault fault) }
  | none =>
    match state.release.reap? with
    | some (status, after) =>
      return { after.report .warning "server exited before the transport was ready"
          [("status", .shown status.display)] with phase := .closing (.exited status) }
    | none =>
      if state.cancelled then return { state.release.kill with phase := .stopping .cancelled }
      else none

/-- What the session ends with, given the status of a server that ended by itself. -/
def outcome (state : State) (status : Option ExitStatus) : Outcome :=
  match state.monitor, status with
  | .finished (.parentExited _), _ => .parentExited
  | _, some status => .serverExited status
  | _, none => .cancelled

/-- The last turn of a session, once the watch has ended. -/
def conclude (state : State) (status : Option ExitStatus) : Option State :=
  let outcome := state.outcome status
  let concluded := { state.report .info "session ended" [("outcome", .shown outcome.display)] with
    phase := .returned (.ok outcome) }
  match state.monitor with
  | .absent | .finished _ => some concluded
  | _ => none

/-- The next turn of the run. -/
def proceed (state : State) : Option State :=
  match state.phase with
  | .starting => state.leaveStart
  | .stopping setback => do
    let after ← state.reapStopped?
    return { (match setback with | .fault _ => after.cancel | _ => after) with
      phase := .closing setback }
  | .closing setback => do
    let after ← state.joinErrors?
    match setback with
    | .fault fault => return { after with phase := .returned (.error (.transport fault)) }
    | .exited status => return { after.cancel with phase := .concluding (some status) }
    | .cancelled => return { after with phase := .concluding none }
  | .opening => return { state.startRelays with phase := .draining }
  | .draining => do return { ← state.joinOutput? with phase := .drainingErrors }
  | .drainingErrors => do
    return { ← state.joinErrors? with inputStopped := true, phase := .drainingInput }
  | .drainingInput => do return { ← state.joinInput? with phase := .waiting }
  | .waiting => do
    let (status, after) ← state.reap?
    return { after.cancel with phase := .concluding (some status) }
  | .stoppingLate => do
    let after ← state.reapStopped?
    return { after.cancel with phase := .concluding none }
  | .concluding status => state.conclude status
  | .returned _ => none

/-- The turn in which the run gives up waiting for a server that goes on, since the session is
cancelled. If the server has ended too, either may be noticed first. -/
def giveUp (state : State) : Option State :=
  match state.phase with
  | .waiting => if state.cancelled then some { state.kill with phase := .stoppingLate } else none
  | _ => none

/-- What the session came to, once it has ended. -/
def result? (state : State) : Option (Except Fault Outcome) :=
  match state.phase with
  | .returned result => some result
  | _ => none

end State

end LspProxy.Session
