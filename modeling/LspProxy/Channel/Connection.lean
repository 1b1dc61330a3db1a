import LspProxy.Channel.Listener
import LspProxy.Duration

/-!
# Connecting to the server

What the server connects to has to exist before it starts, so connecting takes two steps: an endpoint
is prepared, and once the server runs the connection is waited for. The standard streams of the server
need no waiting. A connection to a channel that has arrived is taken even if the time for it is over.
-/
namespace LspProxy.Channel

/-- What exists before the server starts. -/
inductive Prepared where
  /-- Nothing needs to: the server's standard streams will do. -/
  | standard
  | listening (listener : Listener)
  deriving Repr, DecidableEq

/-- Make what has to exist before the server starts. -/
def prepare (disk : Disk) : Endpoint → Log.Logged (Except Fault Prepared × Disk)
  | .standard => return (.ok .standard, disk)
  | .named name => do
    let (bound, disk) ← bind disk name
    return (bound.map .listening, disk)

/-- What is known of a server that is waited for. -/
structure Prospect where
  /-- Its standard input is at hand. -/
  input : Bool := true
  /-- Its standard output is at hand. -/
  output : Bool := true
  /-- The first connection to the channel, or why it was not accepted. -/
  connection : Option (Except Failure Unit) := none
  /-- The time waited so far. -/
  waited : Duration

namespace Prepared

/-- The standard streams of the server are pipes to the proxy. A server that has a channel gets none,
since nobody would empty them. -/
def pipesStreams : Prepared → Bool
  | standard => true
  | listening _ => false

/-- The name of the transport that will be used. -/
def transportName : Prepared → String
  | standard => "stdio"
  | listening _ => Channel.transportName

/-- What comes of waiting so far, if it is over. -/
def attempt (limit : Duration) (prospect : Prospect) :
    Prepared → Option (Log.Logged (Except Fault Unit))
  | standard => some <|
    if ¬ prospect.input then return .error (.notPiped "stdin")
    else if ¬ prospect.output then return .error (.notPiped "stdout")
    else do
      Log.report .info "server transport ready" [("transport", .text standard.transportName)]
      return .ok ()
  | listening listener =>
    match prospect.connection with
    | some (.ok ()) => some do
      Log.report .debug "server connected to named channel" [("name", .shown listener.name)]
      Log.report .info "server transport ready"
        [("transport", .text Channel.transportName), ("name", .text listener.name)]
      return .ok ()
    | some (.error failure) => some (return .error (.accepting failure))
    | none =>
      if limit.nanoseconds ≤ prospect.waited.nanoseconds then
        some (return .error (.timeout listener.name limit))
      else none

/-- Waiting is over at the latest when the time for it is. -/
theorem attempt_isSome (limit : Duration) (prospect : Prospect) (prepared : Prepared)
    (expired : limit.nanoseconds ≤ prospect.waited.nanoseconds) :
    (prepared.attempt limit prospect).isSome := by
  cases prepared with
  | standard => rfl
  | listening listener =>
    simp only [attempt, expired, if_true]
    split <;> rfl

/-- Give up what was prepared. -/
def release (disk : Disk) : Prepared → Log.Logged Disk
  | standard => return disk
  | listening listener => listener.release disk

end Prepared

end LspProxy.Channel
