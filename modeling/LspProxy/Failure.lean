/-!
# Failures of input and output

A failure is known by its kind alone, by the number the operating system gave, or by a text of the
proxy's own. `message` is its wording and `cause` its kind; only the kind decides how the proxy
goes on (an interrupted call is made again, a missing path may be created, a refused permission has
an exit code of its own).
-/
namespace LspProxy

/-- What sort of thing went wrong. -/
inductive Cause where
  | notFound
  | permissionDenied
  | brokenPipe
  | connectionReset
  | connectionRefused
  | alreadyExists
  | addressInUse
  | notADirectory
  | isADirectory
  | filesystemLoop
  | invalidFilename
  | storageFull
  | wouldBlock
  | invalidInput
  | invalidData
  | timedOut
  | writeZero
  | interrupted
  | unexpectedEnd
  | other
  | uncategorized
  deriving Repr, DecidableEq

namespace Cause

/-- The wording of a failure that is known by its kind alone. -/
def message : Cause → String
  | notFound => "entity not found"
  | permissionDenied => "permission denied"
  | brokenPipe => "broken pipe"
  | connectionReset => "connection reset"
  | connectionRefused => "connection refused"
  | alreadyExists => "entity already exists"
  | addressInUse => "address in use"
  | notADirectory => "not a directory"
  | isADirectory => "is a directory"
  | filesystemLoop => "filesystem loop or indirection limit (e.g. symlink loop)"
  | invalidFilename => "invalid filename"
  | storageFull => "no storage space"
  | wouldBlock => "operation would block"
  | invalidInput => "invalid input parameter"
  | invalidData => "invalid data"
  | timedOut => "timed out"
  | writeZero => "write zero"
  | interrupted => "operation interrupted"
  | unexpectedEnd => "unexpected end of file"
  | other => "other error"
  | uncategorized => "uncategorized error"

end Cause

/-! The error numbers of the operating system that the proxy meets by name. -/
namespace ErrorNumber

def notPermitted : Nat := 1
def noEntry : Nat := 2
def accessDenied : Nat := 13
def fileExists : Nat := 17
def noDevice : Nat := 6
def notDirectory : Nat := 20
def isDirectory : Nat := 21
def invalidArgument : Nat := 22
def noSpace : Nat := 28
def brokenPipe : Nat := 32
def nameTooLong : Nat := 36
def linkLoop : Nat := 40
def addressInUse : Nat := 98
def connectionReset : Nat := 104

/-- The system's own words for an error number. -/
def message : Nat → String
  | 1 => "Operation not permitted"
  | 2 => "No such file or directory"
  | 4 => "Interrupted system call"
  | 5 => "Input/output error"
  | 6 => "No such device or address"
  | 11 => "Resource temporarily unavailable"
  | 12 => "Cannot allocate memory"
  | 13 => "Permission denied"
  | 16 => "Device or resource busy"
  | 17 => "File exists"
  | 20 => "Not a directory"
  | 21 => "Is a directory"
  | 22 => "Invalid argument"
  | 24 => "Too many open files"
  | 28 => "No space left on device"
  | 30 => "Read-only file system"
  | 32 => "Broken pipe"
  | 36 => "File name too long"
  | 40 => "Too many levels of symbolic links"
  | 98 => "Address already in use"
  | 104 => "Connection reset by peer"
  | 110 => "Connection timed out"
  | 111 => "Connection refused"
  | number => "Unknown error " ++ toString number

/-- The kind of failure an error number stands for. -/
def cause : Nat → Cause
  | 1 => .permissionDenied
  | 2 => .notFound
  | 4 => .interrupted
  | 11 => .wouldBlock
  | 13 => .permissionDenied
  | 17 => .alreadyExists
  | 20 => .notADirectory
  | 21 => .isADirectory
  | 22 => .invalidInput
  | 28 => .storageFull
  | 32 => .brokenPipe
  | 36 => .invalidFilename
  | 40 => .filesystemLoop
  | 98 => .addressInUse
  | 104 => .connectionReset
  | 110 => .timedOut
  | 111 => .connectionRefused
  | _ => .uncategorized

end ErrorNumber

/-- One failed call. -/
inductive Failure where
  /-- Known by its kind alone. -/
  | plain (cause : Cause)
  /-- Reported by the operating system under this number. -/
  | system (number : Nat)
  /-- Reported in words of its own. -/
  | worded (cause : Cause) (text : String)
  deriving Repr, DecidableEq

namespace Failure

/-- The kind of a failure. -/
def cause : Failure → Cause
  | plain cause => cause
  | system number => ErrorNumber.cause number
  | worded cause _ => cause

/-- The wording of a failure. -/
def message : Failure → String
  | plain cause => cause.message
  | system number => ErrorNumber.message number ++ " (os error " ++ toString number ++ ")"
  | worded _ text => text

/-- The call was interrupted and is made again. -/
def isInterrupted (failure : Failure) : Bool := failure.cause = .interrupted

/-- A path that holds a NUL reaches no file call. -/
def nulInPath : Failure := .worded .invalidInput "file name contained an unexpected NUL byte"

/-- An argument that holds a NUL reaches no call. -/
def nulInArgument : Failure := .worded .invalidInput "nul byte found in provided data"

example : (system 2).message = "No such file or directory (os error 2)" := by decide +kernel

end Failure

end LspProxy
