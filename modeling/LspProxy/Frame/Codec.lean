import LspProxy.Frame.Header

/-!
# Frames on the wire

A message travels as a header line, an empty line and its body. `encode` writes one; `decode` takes
the next message from the front of a buffer and returns what is left. Text before the first token
is a message of its own: it is handed on as it stands. A buffer whose frame is incomplete, or whose
header cannot be read, yields nothing and is kept.

Each message takes at least one byte off the buffer (`decode_length`), so `drain`, which decodes
until nothing comes, ends.
-/
namespace LspProxy.Frame

/-- The octets of a number in decimal. -/
def digits (n : Nat) : Bytes := (Nat.toDigits 10 n).map (fun c => UInt8.ofNat c.toNat)

/-- A body in its frame. -/
def encode (body : Bytes) : Bytes := opening ++ digits body.length ++ lineEnd ++ lineEnd ++ body

/-- The frames of several bodies, one behind the other. -/
def encodeAll (bodies : List Bytes) : Bytes := (bodies.map encode).flatten

/-- Take the first `count` bytes off, if there are that many. -/
def split? (count : Nat) (bytes : Bytes) : Option (Bytes × Bytes) :=
  if count ≤ bytes.length then some (bytes.take count, bytes.drop count) else none

/-- The frame at the front of a buffer: its body and what follows. The header line reaches up to
the first carriage return. -/
def decodeFrame (buffer : Bytes) : Option (Bytes × Bytes) :=
  let line := buffer.takeWhile (· != Bytes.carriageReturn)
  match buffer.drop line.length with
  | 13 :: 10 :: 13 :: 10 :: rest => do
    let count ← announced? line
    split? count rest
  | _ => none

/-- The next message at the front of a buffer: the text before the first token, or the body of
the frame that begins there. -/
def decode (buffer : Bytes) : Option (Bytes × Bytes) :=
  match Bytes.position? token buffer with
  | none => none
  | some 0 => decodeFrame buffer
  | some (before + 1) => some (buffer.take (before + 1), buffer.drop (before + 1))

theorem decodeFrame_length {buffer body rest : Bytes}
    (decoded : decodeFrame buffer = some (body, rest)) : rest.length < buffer.length := by
  unfold decodeFrame at decoded
  simp only at decoded
  split at decoded
  · rename_i tail separated
    have size := congrArg List.length separated
    simp only [List.length_drop, List.length_cons] at size
    cases announcement : announced? (buffer.takeWhile (· != Bytes.carriageReturn)) with
    | none => simp [announcement] at decoded
    | some count =>
      simp only [announcement, Option.bind_eq_bind, Option.bind_some, split?] at decoded
      split at decoded
      · simp only [Option.some.injEq, Prod.mk.injEq] at decoded
        rw [← decoded.2, List.length_drop]
        omega
      · exact absurd decoded (by simp)
  · exact absurd decoded (by simp)

theorem positionFrom_lt {pattern bytes : Bytes} {skipped position : Nat}
    (found : Bytes.positionFrom pattern skipped bytes = some position) :
    position < skipped + bytes.length := by
  induction bytes generalizing skipped with
  | nil => exact absurd found (by simp [Bytes.positionFrom])
  | cons b rest inductionHypothesis =>
    unfold Bytes.positionFrom at found
    split at found
    · simp only [Option.some.injEq] at found
      simp only [List.length_cons]
      omega
    · have bound := inductionHypothesis found
      simp only [List.length_cons]
      omega

/-- Every message takes something off the buffer. -/
theorem decode_length {buffer body rest : Bytes} (decoded : decode buffer = some (body, rest)) :
    rest.length < buffer.length := by
  unfold decode at decoded
  split at decoded
  · exact absurd decoded (by simp)
  · exact decodeFrame_length decoded
  · rename_i before found
    have bound := positionFrom_lt found
    simp only [Option.some.injEq, Prod.mk.injEq] at decoded
    rw [← decoded.2, List.length_drop]
    omega

/-- All messages complete in a buffer, in order, and the bytes left. -/
def drain (buffer : Bytes) : List Bytes × Bytes :=
  match decoded : decode buffer with
  | none => ([], buffer)
  | some (body, rest) =>
    have := decode_length decoded
    let (bodies, residual) := drain rest
    (body :: bodies, residual)
termination_by buffer.length

/-- Append a chunk to a buffer and drain it. -/
def receive (buffer chunk : Bytes) : List Bytes × Bytes := drain (buffer ++ chunk)

/-- The messages that each of several chunks completes, with the buffer left after it. -/
def receiveAll (buffer : Bytes) : List Bytes → List (List Bytes × Bytes)
  | [] => []
  | chunk :: chunks =>
    let step := receive buffer chunk
    step :: receiveAll step.2 chunks

example : drain (encode (Bytes.ascii "a") ++ Bytes.ascii "xContent-Length: 2") =
    ([Bytes.ascii "a", Bytes.ascii "x"], Bytes.ascii "Content-Length: 2") := by
  decide +kernel

end LspProxy.Frame
