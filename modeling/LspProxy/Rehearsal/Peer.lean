import LspProxy.Stream.Pipe

/-!
# The far end of a channel

Whoever connects to the channel follows a list of parts: it says something, reads so many bytes, reads
to the end, or says back what it hears. Then it closes the connection. It remembers all that it has
read.
-/
namespace LspProxy.Rehearsal

/-- One part of what a peer does. -/
inductive Part where
  | say (bytes : Bytes)
  | hear (count : Nat)
  | hearAll
  | echo
  deriving Repr, DecidableEq

/-- What a peer does to the connection. -/
inductive Deed where
  | reads (count : Nat)
  | writes (bytes : Bytes)
  | closes
  deriving Repr, DecidableEq

/-- A peer and what it still has to do. -/
structure Peer where
  parts : List Part
  /-- What it has heard and not yet said back. -/
  owed : Bytes := []
  received : Bytes := []
  connected : Bool := false
  closed : Bool := false
  deriving Repr, DecidableEq

namespace Peer

/-- The peer goes on with the rest of its parts. -/
def next (peer : Peer) (parts : List Part) : Peer × Option Deed := ({ peer with parts }, none)

/-- The peer closes the connection. -/
def close (peer : Peer) : Peer × Option Deed :=
  ({ peer with parts := [], closed := true }, some .closes)

/-- The peer reads at most so many bytes of what there is; `ended` says what comes of the end of the
stream. -/
def read (peer : Peer) (incoming : Pipe) (limit : Nat) (heard : Bytes → Peer)
    (ended : Peer × Option Deed) : Option (Peer × Option Deed) :=
  match incoming.fetch limit with
  | (.data bytes, _) =>
    some ({ heard bytes with received := peer.received ++ bytes }, some (.reads bytes.length))
  | (.nothing, _) => none
  | _ => some ended

/-- The peer writes as much as fits. -/
def write (peer : Peer) (outgoing : Pipe) (bytes : Bytes) (left : Bytes → Peer) :
    Option (Peer × Option Deed) :=
  match outgoing.push bytes with
  | (.taken rest, _) => some (left rest, some (.writes (bytes.take (bytes.length - rest.length))))
  | (.blocked, _) => none
  | (.refused _, _) => some peer.close

/-- The next turn of a peer that is connected. -/
def turn (peer : Peer) (incoming outgoing : Pipe) : Option (Peer × Option Deed) :=
  if peer.closed then none
  else
    match peer.parts with
    | [] => some peer.close
    | .say [] :: parts | .hear 0 :: parts => some (peer.next parts)
    | .say bytes :: parts =>
      peer.write outgoing bytes fun rest => { peer with parts := .say rest :: parts }
    | .hear count :: parts =>
      peer.read incoming count
        (fun bytes => { peer with parts := .hear (count - bytes.length) :: parts }) peer.close
    | .hearAll :: parts =>
      peer.read incoming incoming.capacity (fun _ => peer) (peer.next parts)
    | .echo :: parts =>
      if peer.owed = [] then
        peer.read incoming incoming.capacity (fun bytes => { peer with owed := bytes })
          (peer.next parts)
      else peer.write outgoing peer.owed fun rest => { peer with owed := rest }

end Peer

end LspProxy.Rehearsal
