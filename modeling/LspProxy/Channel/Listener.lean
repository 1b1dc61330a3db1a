import LspProxy.Channel.Endpoint
import LspProxy.Channel.Fault
import LspProxy.Disk.Basic
import LspProxy.Log.Event

/-!
# Listening on a channel

A channel is a socket in the file system that only its owner may use. A socket that is there already
is taken for a leftover and replaced; anything else is left alone and reported. A listener remembers
which socket is its own and removes no other.
-/
namespace LspProxy.Channel

/-- The number of bytes that an address has for a path and the zero behind it. -/
def addressSize : Nat := 108

/-- The permissions of a channel: only its owner may use it. -/
def socketMode : Nat := 0o600

/-- The written form of these. -/
def permissions : String := String.ofList (Nat.toDigits 8 socketMode)

/-- The name of the transport over a channel. -/
def transportName : String := "unix-domain-socket"

/-- A bound channel. -/
structure Listener where
  name : String
  path : Path
  /-- The number of the listener's own socket. -/
  socket : Nat
  deriving Repr, DecidableEq

/-- Something other than a socket is where the channel should be. -/
def occupied : Failure := .worded .alreadyExists "path exists and is not a socket"

/-- Make room for a socket. -/
def clear (disk : Disk) (path : Path) : Log.Logged (Except Failure Disk) :=
  match disk.locate false path with
  | .ok (.leaf _ _ (.socket _)) => do
    Log.report .debug "removing stale socket" [("path", .shown path.quoted)]
    return disk.remove path
  | .ok (.folder _ _) | .ok (.leaf _ _ _) => return .error occupied
  | .ok (.vacant _ _ _) => return .ok disk
  | .error failure => return if failure.cause = .notFound then .ok disk else .error failure

/-- A path with a NUL has no address. -/
def nulInAddress : Failure := .worded .invalidInput "paths must not contain interior null bytes"

/-- Neither has a path without room for the zero behind it. -/
def addressTooLong : Failure := .worded .invalidInput "path must be shorter than SUN_LEN"

/-- What keeps a path from being an address. -/
def unaddressable? (path : Path) : Option Failure :=
  if path.any (· = 0) then some nulInAddress
  else if addressSize ≤ path.length then some addressTooLong
  else none

/-- Make a new socket at a path. One that finds its place taken says so of the address. The empty path is the
address of a socket that is in no folder. -/
def makeSocket (disk : Disk) (path : Path) : Except Failure Disk :=
  match unaddressable? path with
  | some failure => .error failure
  | none =>
    if path = [] then .ok disk
    else
      match disk.place path (.socket disk.nextSocket) with
      | .ok placed => .ok { placed with nextSocket := disk.nextSocket + 1 }
      | .error failure =>
        .error (if failure = .system ErrorNumber.fileExists then .system ErrorNumber.addressInUse else failure)

/-- The number of the socket at a path. It is asked for only where one has just been made. -/
def socketAt (disk : Disk) (path : Path) : Except Failure Nat :=
  match disk.locate false path with
  | .error failure => .error failure
  | .ok (.leaf _ _ (.socket socket)) => .ok socket
  | .ok _ => .error (.system ErrorNumber.noEntry)

/-- Make a new socket at a path, give it the permissions of a channel, and look up its number. -/
def placeSocket (disk : Disk) (path : Path) : Except Failure (Nat × Disk) := do
  let disk ← makeSocket disk path
  let disk ← disk.setMode path socketMode
  return (← socketAt disk path, disk)

/-- Bind a channel at a path. -/
def bindAt (disk : Disk) (name : String) (path : Path) :
    Log.Logged (Except Fault Listener × Disk) := do
  if addressSize ≤ path.length then
    return (.error (.pathTooLong path path.length addressSize), disk)
  else
    match ← clear disk path with
    | .error failure => return (.error (.binding path failure), disk)
    | .ok disk =>
      match placeSocket disk path with
      | .error failure => return (.error (.binding path failure), disk)
      | .ok (socket, disk) =>
        Log.report .info "listening on named channel"
          [("path", .shown path.quoted), ("name", .text name)]
        return (.ok { name, path, socket }, disk)

/-- Bind the channel with a name. -/
def bind (disk : Disk) (name : String) : Log.Logged (Except Fault Listener × Disk) :=
  bindAt disk name (path name)

/-- The socket at the listener's path is its own. -/
def Listener.isInPlace (disk : Disk) (listener : Listener) : Bool :=
  match disk.locate false listener.path with
  | .ok (.leaf _ _ (.socket socket)) => socket = listener.socket
  | _ => false

/-- Give a listener up. -/
def Listener.release (disk : Disk) (listener : Listener) : Log.Logged Disk :=
  if listener.isInPlace disk then return (disk.remove listener.path).toOption.getD disk
  else do
    Log.report .debug "socket path replaced; leaving it in place"
      [("path", .shown listener.path.quoted)]
    return disk

end LspProxy.Channel
