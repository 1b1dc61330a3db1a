import LspProxy.Frame.Reader
import LspProxy.Frame.Writer
import LspProxy.Message.Interceptor
import LspProxy.Relay.Copy
import LspProxy.Relay.MessageLog

/-!
# Forwarding the client's messages

The client's stream is taken apart into messages. Each is treated by the interceptor, and what comes
of it is written to the server, message and injected orders together, before the server's stream is
flushed. A cancellation is looked at before each message and whenever the stream is not ready, never
in the middle of a batch. At the end of the client's messages the server's stream is closed; after a
failure it is left as it is.
-/
namespace LspProxy.Relay

/-- Where messages go: the server's stream, and the log beside it. -/
structure Outlet where
  sink : Sink
  log : MessageLog
  disk : Disk

namespace Outlet

/-- Send one body, and record its frame once it is sent. The answer is the length of the frame. -/
def send (outlet : Outlet) (body : Bytes) : Log.Logged (Except Failure Nat × Outlet) :=
  match Frame.send outlet.sink body with
  | (.error failure, sink) => return (.error failure, { outlet with sink })
  | (.ok wire, sink) => do
    let (log, disk) ← outlet.log.record outlet.disk wire
    return (.ok wire.length, { sink, log, disk })

/-- Send bodies one after the other. -/
def sendAll (outlet : Outlet) : List Bytes → Log.Logged (Except Failure Nat × Outlet)
  | [] => return (.ok 0, outlet)
  | body :: bodies => do
    match ← outlet.send body with
    | (.error failure, outlet) => return (.error failure, outlet)
    | (.ok length, outlet) =>
      match ← outlet.sendAll bodies with
      | (.error failure, outlet) => return (.error failure, outlet)
      | (.ok total, outlet) => return (.ok (length + total), outlet)

/-- Send what one message comes to, and flush. -/
def deliver (outlet : Outlet) (outcome : Message.Outcome) :
    Log.Logged (Except Failure Nat × Outlet) := do
  match ← outlet.sendAll (outcome.forward :: outcome.inject) with
  | (.error failure, outlet) => return (.error failure, outlet)
  | (.ok total, outlet) =>
    match outlet.sink.flush with
    | (.error failure, sink) => return (.error failure, { outlet with sink })
    | (.ok (), sink) => return (.ok total, { outlet with sink })

/-- Close the server's stream. A failure is no more than noted. -/
def close (outlet : Outlet) : Log.Logged Outlet :=
  match outlet.sink.shutdown with
  | (.ok (), sink) => return { outlet with sink }
  | (.error failure, sink) => do
    Log.report .debug "closing server input failed"
      [("error", .shown (Frame.failureMessage failure))]
    return { outlet with sink }

/-- End the relay in order. -/
def finish (outlet : Outlet) (totals : Totals) : Log.Logged (Except Failure Totals × Outlet) := do
  return (.ok totals, ← outlet.close)

end Outlet

/-- Totals with one more batch. -/
def Totals.add (totals : Totals) (outcome : Message.Outcome) (bytes : Nat) : Totals :=
  { totals with messages := totals.messages + 1 + outcome.inject.length, bytes := totals.bytes + bytes }

/-- Forward messages, having come so far. -/
def forwardFrom (interceptor : Message.Interceptor) (outlet : Outlet) (totals : Totals)
    (reader : Frame.Reader) : Log.Logged (Except Failure Totals × Outlet) :=
  match read : reader.next with
  | (.cancelled, _) | (.abandoned, _) => outlet.finish { totals with ending := .cancelled }
  | (.failed failure, _) => return (.error failure, outlet)
  | (.closed residual, _) => do
    if residual > 0 then
      Log.report .warning "client closed with an incomplete message buffered"
        [("residual", .number residual)]
    outlet.finish totals
  | (.message body, reader) => do
    have := Frame.Reader.next_remaining read
    let (outcome, interceptor) ← interceptor.process outlet.disk body
    match ← outlet.deliver outcome with
    | (.error failure, outlet) => return (.error failure, outlet)
    | (.ok bytes, outlet) => forwardFrom interceptor outlet (totals.add outcome bytes) reader
termination_by reader.remaining

/-- Forward all messages of a client's stream. -/
def forward (workspace : Workspace) (outlet : Outlet) (token : Token) (source : Source) :
    Log.Logged (Except Failure Totals × Outlet) :=
  forwardFrom { workspace } outlet {} { source, token }

end LspProxy.Relay
