import LspProxy.Rehearsal.Peer
import LspProxy.Session.Launch

/-!
# Contacts

A contact is a connection to the server by itself, without a session around it. Once it is made,
something is sent, and all that comes back is gathered until the other side closes. The far end of the
standard streams says back what it hears.
-/
namespace LspProxy.Rehearsal

/-- What a contact is tried with. -/
structure Trial where
  endpoint : Endpoint
  disk : Disk
  /-- The standard input of the server is at hand. -/
  input : Bool := true
  /-- The standard output of the server is at hand. -/
  output : Bool := true
  limit : Duration
  /-- What the far end of a channel does, if somebody connects to it. -/
  parts : Option (List Part)
  /-- What is sent. -/
  message : Bytes

/-- What a contact came to. -/
structure Contact where
  /-- The server's standard streams are pipes to the proxy; unknown if no server was started. -/
  piped : Option Bool := none
  /-- The name of the transport and all that came back. -/
  result : Except Channel.Fault (String × Bytes)
  /-- What the far end has read. -/
  received : Bytes := []

/-- A conversation under way. -/
structure Conversation where
  peer : Peer
  outgoing : Pipe
  incoming : Pipe
  unsent : Bytes
  heard : Bytes := []

namespace Conversation

/-- Write what is unsent as far as there is room, and close the way out behind it. -/
def send (conversation : Conversation) : Option Conversation :=
  if ¬ conversation.outgoing.writable then none
  else if conversation.unsent = [] then
    some { conversation with outgoing := conversation.outgoing.hangUp }
  else
    match conversation.outgoing.push conversation.unsent with
    | (.taken rest, outgoing) => some { conversation with outgoing, unsent := rest }
    | (.refused _, outgoing) => some { conversation with outgoing, unsent := [] }
    | (.blocked, _) => none

/-- Gather what has come back. -/
def hear (conversation : Conversation) : Option Conversation :=
  match conversation.incoming.fetch conversation.incoming.capacity with
  | (.data bytes, incoming) =>
    some { conversation with incoming, heard := conversation.heard ++ bytes }
  | _ => none

/-- The conversation after a deed of the far end. -/
def meet (conversation : Conversation) : Option Deed → Conversation
  | none => conversation
  | some (.reads count) =>
    { conversation with outgoing := (conversation.outgoing.fetch count).2 }
  | some (.writes bytes) =>
    { conversation with incoming := (conversation.incoming.push bytes).2 }
  | some .closes =>
    { conversation with
      outgoing := conversation.outgoing.abandon, incoming := conversation.incoming.hangUp }

/-- The far end goes on. -/
def answer (conversation : Conversation) : Option Conversation := do
  let (peer, deed) ← conversation.peer.turn conversation.outgoing conversation.incoming
  return { conversation with peer }.meet deed

/-- All that is said within so many turns. -/
def hold : Nat → Conversation → Conversation
  | 0, conversation => conversation
  | turns + 1, conversation =>
    match conversation.send.or (conversation.hear.or conversation.answer) with
    | some after => hold turns after
    | none => conversation

end Conversation

/-- The bytes that a far end says of its own accord. -/
def saidBytes : List Part → Nat
  | [] => 0
  | .say bytes :: parts => bytes.length + saidBytes parts
  | _ :: parts => saidBytes parts

/-- A bound for the turns of a conversation: each moves at least one byte, or ends a part. -/
def turnBound (message : Bytes) (parts : List Part) : Nat :=
  8 * (message.length + saidBytes parts + parts.length + 1)

/-- The conversation of a contact that has been made, up to its end. -/
def converse (prepared : Channel.Prepared) (parts : List Part) (message : Bytes) : Conversation :=
  let capacity := if prepared.pipesStreams then Session.pipeCapacity else Session.channelCapacity
  let conversation : Conversation :=
    { peer := { parts }, outgoing := { capacity }, incoming := { capacity }, unsent := message }
  conversation.hold (turnBound message parts)

/-- What is known of the server once the time to wait for it is over. -/
def Trial.prospect (trial : Trial) : Channel.Prospect where
  input := trial.input
  output := trial.output
  connection := trial.parts.map fun _ => .ok ()
  waited := trial.limit

/-- Try a contact. -/
def establish (trial : Trial) : Log.Logged Contact := do
  match ← Channel.prepare trial.disk trial.endpoint with
  | (.error fault, _) => return { result := .error fault }
  | (.ok prepared, disk) => do
    let piped := some prepared.pipesStreams
    let attempt := prepared.attempt trial.limit trial.prospect
    let made ← attempt.get (prepared.attempt_isSome trial.limit trial.prospect (Nat.le_refl _))
    let _ ← prepared.release disk
    match made with
    | .error fault => return { piped, result := .error fault }
    | .ok () =>
      let parts := if prepared.pipesStreams then [.echo] else trial.parts.getD []
      let last := converse prepared parts trial.message
      return {
        piped, result := .ok (prepared.transportName, last.heard), received := last.peer.received }

end LspProxy.Rehearsal
