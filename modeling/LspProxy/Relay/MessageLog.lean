import LspProxy.Disk.Basic
import LspProxy.Log.Event

/-!
# The message log

A copy of every frame sent to the server may be kept in a file. The log is a convenience: if its file
cannot be opened, or cannot be written to once, there is no log from then on, and nothing else
changes.

Whether the file can be opened and written to is a matter of its path and of the file system. What else
may go wrong with it is laid down beforehand.
-/
namespace LspProxy.Relay

/-- The record at which writing to a log breaks down. -/
structure Breakdown where
  /-- How many records succeed before. -/
  after : Nat
  /-- How many bytes of the frame get into the file all the same. -/
  written : Nat
  failure : Failure
  deriving Repr, DecidableEq

/-- What goes wrong with a log though its path and the file system would let it go well. -/
structure Mishap where
  /-- The file is not opened. -/
  refusal : Option Failure := none
  breakdown : Option Breakdown := none
  deriving Repr, DecidableEq

/-- A message log: the file that it writes to, if it is enabled, and how writing to it will break down, if
it will. -/
structure MessageLog where
  path : Option Path := none
  breakdown : Option Breakdown := none
  deriving Repr, DecidableEq

namespace MessageLog

def isEnabled (log : MessageLog) : Bool := log.path.isSome

/-- Open the file of a log, and make it and the folders it is in. What is in it stays. -/
def openFile (disk : Disk) (path : Path) (refusal : Option Failure := none) : Except Failure Unit × Disk :=
  match disk.ensureParent path with
  | (.error failure, disk) => (.error failure, disk)
  | (.ok (), disk) =>
    match refusal with
    | some failure => (.error failure, disk)
    | none =>
      match disk.append path [] with
      | .error failure => (.error failure, disk)
      | .ok disk => (.ok (), disk)

/-- Open the log that is asked for. -/
def start (disk : Disk) (path? : Option Path) (mishap : Mishap := {}) : Log.Logged (MessageLog × Disk) :=
  match path? with
  | none => return ({}, disk)
  | some path =>
    match openFile disk path mishap.refusal with
    | (.ok (), disk) => do
      Log.report .debug "recording server-bound frames" [("path", .shown path.quoted)]
      return ({ path := some path, breakdown := mishap.breakdown }, disk)
    | (.error failure, disk) => do
      Log.report .warning "message log disabled"
        [("path", .shown path.quoted), ("error", .shown failure.message)]
      return ({}, disk)

/-- Write a frame at the end of a file. The answer is how writing to it will break down after that. -/
def write (disk : Disk) (path : Path) (wire : Bytes) :
    Option Breakdown → Except Failure (Option Breakdown) × Disk
  | none =>
    match disk.append path wire with
    | .ok disk => (.ok none, disk)
    | .error failure => (.error failure, disk)
  | some ⟨0, written, failure⟩ =>
    match disk.append path (wire.take written) with
    | .ok disk => (.error failure, disk)
    | .error failure => (.error failure, disk)
  | some ⟨after + 1, written, failure⟩ =>
    match disk.append path wire with
    | .ok disk => (.ok (some ⟨after, written, failure⟩), disk)
    | .error failure => (.error failure, disk)

/-- Add a frame to the log. -/
def record (disk : Disk) (log : MessageLog) (wire : Bytes) : Log.Logged (MessageLog × Disk) :=
  match log.path with
  | none => return (log, disk)
  | some path =>
    match write disk path wire log.breakdown with
    | (.ok breakdown, disk) => return ({ log with breakdown }, disk)
    | (.error failure, disk) => do
      Log.report .warning "message log write failed; disabling"
        [("path", .shown path.quoted), ("error", .shown failure.message)]
      return ({}, disk)

/-- Add frames one after the other; the log after each. -/
def recordAll (disk : Disk) (log : MessageLog) : List Bytes → Log.Logged (List MessageLog × Disk)
  | [] => return ([], disk)
  | wire :: wires => do
    let (log, disk) ← record disk log wire
    let (logs, disk) ← recordAll disk log wires
    return (log :: logs, disk)

end MessageLog

end LspProxy.Relay
