import LspProxy.Stream.Source
import LspProxy.Stream.Sink

/-!
# Copying bytes until the end or a cancellation

What the server writes goes to the client unchanged, in portions of at most `portion` bytes. Each
portion is written in full and flushed before the next read, so a cancellation, which is looked at
only before a read, never cuts a portion short.
-/
namespace LspProxy.Relay

/-- Why a relay stopped. -/
inductive Ending where
  /-- The source reached its end. -/
  | exhausted
  /-- The session was cancelled. -/
  | cancelled
  deriving Repr, DecidableEq

/-- The name of an ending in reports. -/
def Ending.display : Ending → String
  | exhausted => "Eof"
  | cancelled => "Cancelled"

/-- The totals of a finished relay. -/
structure Totals where
  ending : Ending := .exhausted
  messages : Nat := 0
  bytes : Nat := 0
  deriving Repr, DecidableEq

/-- Write one portion in full and flush it. -/
def pass (sink : Sink) (bytes : Bytes) : Except Failure Unit × Sink :=
  match sink.writeAll bytes with
  | (.error failure, after) => (.error failure, after)
  | (.ok (), after) => after.flush

/-- The copy while a read is under way, `count` bytes having been passed on. -/
def copyFrom (token : Token) (sink : Sink) (count : Nat) : Source → Except Failure Totals × Sink
  | [] => (.ok { bytes := count }, sink)
  | .data [] :: _ => (.ok { bytes := count }, sink)
  | .data (first :: others) :: later =>
    match pass sink (first :: others) with
    | (.error failure, after) => (.error failure, after)
    | (.ok (), after) =>
      let passed := count + (first :: others).length
      if token.isCancelled then (.ok { ending := .cancelled, bytes := passed }, after)
      else copyFrom token after passed later
  | .failure failure :: later =>
    if failure.isInterrupted then
      if token.isCancelled then (.ok { ending := .cancelled, bytes := count }, sink)
      else copyFrom token sink count later
    else (.error failure, sink)
  | .cancellation :: later => copyFrom token.cancel sink count later
  | .waiting :: later | .abandoned :: later =>
    if token.isCancelled then (.ok { ending := .cancelled, bytes := count }, sink)
    else copyFrom token sink count later

/-- The most bytes one read of a copy takes. -/
def portion : Nat := 8192

/-- Copy a source to a sink until its end or a cancellation. -/
def copy (token : Token) (source : Source) (sink : Sink) : Except Failure Totals × Sink :=
  if token.isCancelled then (.ok { ending := .cancelled }, sink)
  else copyFrom token sink 0 (source.cut portion)

end LspProxy.Relay
