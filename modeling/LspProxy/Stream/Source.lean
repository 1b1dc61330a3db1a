import LspProxy.Bytes
import LspProxy.Failure

/-!
# What a reader meets

The stream a relay reads from is the finite list of what happens to its reads, in order: data
arrives, a read fails, a read is not ready and is tried again, the session is cancelled while a
read is under way, or the caller gives up waiting. After the last of them every read finds the end
of the stream. Nothing is assumed about where data is cut, so statements over all sources are
statements over all behaviours of the other side.

`Token` is the cancellation the reader heeds. A reader outside any session heeds none.
-/
namespace LspProxy

/-- One thing that happens to a read. -/
inductive Arrival where
  /-- One read gets these bytes. Empty data is the end of the stream, seen once. -/
  | data (bytes : Bytes)
  /-- One read fails. -/
  | failure (failure : Failure)
  /-- The read is not ready and is looked at again. -/
  | waiting
  /-- The session is cancelled while the read is under way; the read goes on. -/
  | cancellation
  /-- The read is not ready and its caller gives it up. -/
  | abandoned
  deriving Repr, DecidableEq

/-- What happens to the reads of one stream, in order. -/
abbrev Source := List Arrival

/-- Whether the session has been cancelled, as one reader sees it. -/
inductive Token where
  /-- Nobody looks for a cancellation. -/
  | unheeded
  | clear
  | cancelled
  deriving Repr, DecidableEq

namespace Token

/-- Cancel the session. -/
def cancel : Token → Token
  | unheeded => unheeded
  | _ => cancelled

def isCancelled (token : Token) : Bool := token = cancelled

/-- The token of a session that has or has not been cancelled already. -/
def ofBool (beforehand : Bool) : Token := if beforehand then cancelled else clear

end Token

/-- Data as reads of at most `limit` bytes get it: what does not fit stays for the next read. -/
def pieces (limit : Nat) (bytes : Bytes) : List Bytes :=
  if bytes.length ≤ limit ∨ limit = 0 then [bytes]
  else bytes.take limit :: pieces limit (bytes.drop limit)
termination_by bytes.length
decreasing_by simp only [List.length_drop]; omega

/-- A source as reads of at most `limit` bytes meet it. -/
def Source.cut (limit : Nat) (source : Source) : Source :=
  source.flatMap fun arrival =>
    match arrival with
    | .data bytes => (pieces limit bytes).map .data
    | other => [other]

/-- All data of a source, up to its end or not. -/
def Source.bytes (source : Source) : Bytes :=
  source.flatMap fun arrival =>
    match arrival with
    | .data bytes => bytes
    | _ => []

end LspProxy
