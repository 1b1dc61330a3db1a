import LspProxy.Frame.Codec
import LspProxy.Frame.Writer
import LspProxy.Relay.Client
import LspProxy.Session.State

/-!
# What the relays and the watch of a session do next

Each task of a session moves in turns. A turn is everything up to the point where the task would have
to wait again, so other tasks move only between turns; a task that can do nothing yet has no turn. A
relay that has begun to write a frame looks at no cancellation before the frame and those that belong
to it are written.
-/
namespace LspProxy.Session

/-! ## The server's output -/

/-- The next turn of a copy: one read, and the passing on of what it found. -/
def Copying.advance (cancelled : Bool) (pipe : Pipe) (sink : Sink) :
    Copying → Option (Copying × Pipe × Sink)
  | finished _ => none
  | running count =>
    if cancelled then
      some (finished (.ok { ending := .cancelled, bytes := count }), pipe, sink)
    else
      match pipe.fetch Relay.portion with
      | (.nothing, _) => none
      | (.ended, pipe) => some (finished (.ok { bytes := count }), pipe, sink)
      | (.failed failure, pipe) =>
        some (if failure.isInterrupted then running count else finished (.error failure), pipe, sink)
      | (.data bytes, pipe) =>
        match Relay.pass sink bytes with
        | (.ok (), sink) => some (running (count + bytes.length), pipe, sink)
        | (.error failure, sink) => some (finished (.error failure), pipe, sink)

/-! ## The client's messages -/

/-- What looking for the next message finds. -/
inductive Found where
  | nothing
  | message (body : Bytes)
  | closed (residual : Nat)
  | failed (failure : Failure)
  deriving Repr, DecidableEq

/-- Look for the next message in the bytes at hand, and read on while there is none. -/
def gather (buffer : Bytes) (client : Pipe) : Found × Bytes × Pipe :=
  match Frame.decode buffer with
  | some (body, rest) => (.message body, rest, client)
  | none =>
    match read : client.fetch Relay.portion with
    | (.nothing, client) => (.nothing, buffer, client)
    | (.ended, client) => (.closed buffer.length, buffer, client)
    | (.failed failure, client) =>
      (if failure.isInterrupted then .nothing else .failed failure, buffer, client)
    | (.data bytes, after) =>
      have := Pipe.fetch_length read (by decide)
      gather (buffer ++ bytes) after
termination_by client.content.length

/-- The frames for what a message comes to, none of them written yet. -/
def Batch.ofOutcome (outcome : Message.Outcome) : Batch :=
  let frame := Frame.encode outcome.forward
  { frame, rest := frame, later := outcome.inject, outcome }

/-- The batch after a frame that is written in full, if there is more of it. -/
def Batch.next (batch : Batch) : Option Batch :=
  match batch.later with
  | [] => none
  | body :: later =>
    let frame := Frame.encode body
    some { batch with frame, rest := frame, later, sent := batch.sent + batch.frame.length }

/-- The relay after a batch that is written in full. -/
def Forwarder.complete (forwarder : Forwarder) (batch : Batch) : Forwarder :=
  { forwarder with
    stage := .reading
    totals := forwarder.totals.add batch.outcome (batch.sent + batch.frame.length) }

/-- The relay after an end in order. -/
def Forwarder.finish (forwarder : Forwarder) (ending : Relay.Ending) : Forwarder :=
  { forwarder with stage := .finished (.ok { forwarder.totals with ending }) }

namespace State

/-- The session with its relay of messages changed. -/
def putForwarder (state : State) (forwarder : Forwarder) : State :=
  closeStreams { state with inputRelay := some forwarder }

/-- Read on to the next message of the client, and treat it. -/
def readMessage (state : State) (forwarder : Forwarder) : Option State :=
  if state.inputCancelled then some (state.putForwarder (forwarder.finish .cancelled))
  else
    let (found, buffer, client) := gather forwarder.buffer state.client
    let after := { state with client }
    let forwarder' := { forwarder with buffer }
    match found with
    | .nothing =>
      if client = state.client then none else some (after.putForwarder forwarder')
    | .failed failure =>
      some (after.putForwarder { forwarder' with stage := .finished (.error failure) })
    | .closed residual =>
      let after := if residual = 0 then after else
        after.report .warning "client closed with an incomplete message buffered"
          [("residual", .number residual)]
      some (after.putForwarder (forwarder'.finish .exhausted))
    | .message body =>
      let treated := forwarder.interceptor.process state.disk body
      let (outcome, interceptor) := treated.value
      some ((after.add treated.events).putForwarder
        { forwarder' with interceptor, stage := .sending (.ofOutcome outcome) })

/-- Write on at a batch, and record each frame that is written in full. -/
def sendBatch (state : State) (forwarder : Forwarder) (batch : Batch) : Option State :=
  match state.toServer.push batch.rest with
  | (.blocked, _) => none
  | (.refused failure, toServer) =>
    some ({ state with toServer }.putForwarder
      { forwarder with stage := .finished (.error failure) })
  | (.taken (first :: others), toServer) =>
    some ({ state with toServer }.putForwarder
      { forwarder with stage := .sending { batch with rest := first :: others } })
  | (.taken [], toServer) =>
    let recorded := forwarder.log.record state.disk batch.frame
    let (log, disk) := recorded.value
    let forwarder := { forwarder with log }
    let forwarder := match batch.next with
      | some batch => { forwarder with stage := .sending batch }
      | none => forwarder.complete batch
    some (({ state with toServer, disk }.add recorded.events).putForwarder forwarder)

/-- The next turn of the relay of the client's messages. -/
def forward (state : State) : Option State := do
  let forwarder ← state.inputRelay
  match forwarder.stage with
  | .reading => state.readMessage forwarder
  | .sending batch => state.sendBatch forwarder batch
  | .finished _ => none

/-- The next turn of the relay of the server's output. -/
def copyOutput (state : State) : Option State := do
  let (relay, fromServer, clientOutput) ←
    (← state.outputRelay).advance state.cancelled state.fromServer state.clientOutput
  return closeStreams { state with outputRelay := some relay, fromServer, clientOutput }

/-- The next turn of the relay of the server's error output. -/
def copyErrors (state : State) : Option State := do
  let (relay, errors, clientErrors) ←
    state.errorRelay.advance state.cancelled state.errors state.clientErrors
  let errors := match relay with
    | .running _ => errors
    | .finished _ => errors.abandon
  return { state with errorRelay := relay, errors, clientErrors }

/-! ## The watch over the parent -/

/-- The next turn of the watch, apart from the end of a wait. A watch that finds the parent dead
cancels the session. -/
def watch (state : State) : Option State :=
  match state.monitor with
  | .absent | .finished _ => none
  | .fresh interval =>
    let begun := Parent.begin state.probe.parent interval
    let monitor := match begun.value with
      | none => .finished .inert
      | some parent => .asking interval parent 0
    some { state.add begun.events with monitor }
  | .asking interval parent checks =>
    let looked := Parent.look parent state.cancelled (state.probe.alive checks)
    let after := state.add looked.events
    match looked.value with
    | none =>
      let wake := state.clock + interval.nanoseconds
      some { after with monitor := .resting interval parent (checks + 1) wake }
    | some (.parentExited parent) =>
      some (cancel { after with monitor := .finished (.parentExited parent) })
    | some verdict => some { after with monitor := .finished verdict }
  | .resting _ parent _ _ =>
    if state.cancelled then
      let stopped := Parent.standDown parent
      some { state.add stopped.events with monitor := .finished stopped.value }
    else none

/-- The end of a wait of the watch. -/
def wake (state : State) : Option State :=
  match state.monitor with
  | .resting interval parent checks wake =>
    if wake ≤ state.clock then some { state with monitor := .asking interval parent checks } else none
  | _ => none

end State

end LspProxy.Session
