import LspProxy.Frame.Codec
import LspProxy.Stream.Sink

/-!
# Writing messages to a stream

A message is written as one frame, and the bytes of the frame are reported back, so that a copy of
what was sent can be kept. Writing does not flush: the caller decides where a batch ends.

A writer puts its frames together in a buffer of its own, which it uses again for every message. `send`
is what this comes to for someone who has only the stream in view.
-/
namespace LspProxy.Frame

/-- Write a body in its frame; on success the frame is what was sent. -/
def send (sink : Sink) (body : Bytes) : Except Failure Bytes × Sink :=
  let wire := encode body
  match sink.writeAll wire with
  | (.ok (), after) => (.ok wire, after)
  | (.error failure, after) => (.error failure, after)

/-- The wording of a failure while frames are read or written. -/
def failureMessage (failure : Failure) : String := "frame I/O error: " ++ failure.message

/-- One use of a writer. -/
inductive WriterCall where
  | write (body : Bytes)
  | flush
  | shutdown
  deriving Repr, DecidableEq

/-- The answer to one use: what was sent, nothing, or a failure. -/
inductive WriterAnswer where
  | sent (wire : Bytes)
  | done
  | failed (failure : Failure)
  deriving Repr, DecidableEq

/-- Carry out one use of a writer. -/
def WriterCall.perform (sink : Sink) : WriterCall → WriterAnswer × Sink
  | .write body =>
    match send sink body with
    | (.ok wire, after) => (.sent wire, after)
    | (.error failure, after) => (.failed failure, after)
  | .flush =>
    match sink.flush with
    | (.ok (), after) => (.done, after)
    | (.error failure, after) => (.failed failure, after)
  | .shutdown =>
    match sink.shutdown with
    | (.ok (), after) => (.done, after)
    | (.error failure, after) => (.failed failure, after)

/-- Carry out several uses, one after the other. -/
def performAll (sink : Sink) : List WriterCall → List WriterAnswer × Sink
  | [] => ([], sink)
  | call :: calls =>
    let (answer, after) := call.perform sink
    let (answers, final) := performAll after calls
    (answer :: answers, final)

/-- A writer between uses: the stream behind it, and the buffer in which frames are put together. -/
structure Writer where
  sink : Sink
  buffer : Bytes := []
  deriving Repr

namespace Writer

/-- Put the frame of a body into the buffer, once what was in it is cleared away. -/
def fill (writer : Writer) (body : Bytes) : Writer :=
  let cleared := { writer with buffer := [] }
  { cleared with buffer := cleared.buffer ++ encode body }

/-- Take everything out of the buffer. -/
def split (writer : Writer) : Bytes × Writer := (writer.buffer, { writer with buffer := [] })

/-- Write a body, or the body of a decoded message, in its frame. The frame is out of the buffer before
any of it is written. -/
def write (writer : Writer) (body : Bytes) : Except Failure Bytes × Writer :=
  let (wire, emptied) := (writer.fill body).split
  match emptied.sink.writeAll wire with
  | (.ok (), sink) => (.ok wire, { emptied with sink })
  | (.error failure, sink) => (.error failure, { emptied with sink })

/-- Carry out one use of the writer. -/
def perform (writer : Writer) : WriterCall → WriterAnswer × Writer
  | .write body =>
    match writer.write body with
    | (.ok wire, after) => (.sent wire, after)
    | (.error failure, after) => (.failed failure, after)
  | .flush =>
    match writer.sink.flush with
    | (.ok (), sink) => (.done, { writer with sink })
    | (.error failure, sink) => (.failed failure, { writer with sink })
  | .shutdown =>
    match writer.sink.shutdown with
    | (.ok (), sink) => (.done, { writer with sink })
    | (.error failure, sink) => (.failed failure, { writer with sink })

/-- Carry out several uses, one after the other. -/
def performAll (writer : Writer) : List WriterCall → List WriterAnswer × Writer
  | [] => ([], writer)
  | call :: calls =>
    let (answer, after) := writer.perform call
    let (answers, final) := after.performAll calls
    (answer :: answers, final)

end Writer

end LspProxy.Frame
