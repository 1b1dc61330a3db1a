import LspProxy.Disk.Basic

/-!
# What a rehearsed server does

A session can be rehearsed without a server: in its place stands a list of actions. All that a server
does to its streams is a flow of bytes from somewhere to somewhere, perhaps cut off and changed on the
way; beside flows there is waiting, and in the end an exit code or a signal.
-/
namespace LspProxy.Rehearsal

/-- Where bytes come from. -/
inductive Origin where
  | bytes (content : Bytes)
  /-- The standard input. -/
  | input
  /-- Zeros without end. -/
  | zeros
  | file (path : Path)
  deriving Repr, DecidableEq

/-- Where bytes go. -/
inductive Target where
  /-- The standard output. -/
  | output
  /-- The error output. -/
  | errors
  | nowhere
  /-- The end of a file. -/
  | file (path : Path)
  deriving Repr, DecidableEq

/-- Bytes on their way. -/
structure Flow where
  origin : Origin
  /-- The most bytes that pass, if there is a bound. -/
  limit : Option Nat := none
  /-- What becomes of each byte. -/
  change : UInt8 → UInt8 := id

/-- A flow with no bytes left in it. -/
def Flow.isDry (flow : Flow) : Bool :=
  flow.limit = some 0 || flow.origin = .bytes []

/-- The first of the bytes at hand that may pass. -/
def Flow.within (flow : Flow) (bytes : Bytes) : Bytes :=
  match flow.limit with
  | none => bytes
  | some limit => bytes.take limit

/-- The flow after so many bytes have passed. -/
def Flow.after (flow : Flow) (count : Nat) : Flow :=
  { flow with
    origin := match flow.origin with
      | .bytes content => .bytes (content.drop count)
      | origin => origin
    limit := flow.limit.map (· - count) }

/-- What another use of the proxy leaves behind: the files, what it has said on the error output, and its exit
code, if it has ended. -/
structure Aftermath where
  disk : Disk
  errors : Bytes
  code : Option Nat

/-- One thing that a server does. -/
inductive Action where
  /-- Let bytes flow. If nobody reads them the server is ended by a signal, or, where another process
  does it for the server, goes on. -/
  | pass (flow : Flow) (target : Target) (own : Bool)
  /-- Make a file, or empty the one that is there. -/
  | create (path : Path) (empty : Bool)
  /-- Wait for some time, in nanoseconds. -/
  | pause (time : Nat)
  /-- Wait until something is at a path, looking again and again. -/
  | await (path : Path) (interval : Nat)
  /-- Be another use of the proxy, from its beginning to its end, with nothing else happening meanwhile. -/
  | use (other : Disk → Aftermath)
  | exit (code : Nat)
  | die (signal : Nat)

/-- Write bytes. -/
def Action.say (target : Target) (bytes : Bytes) : Action := .pass { origin := .bytes bytes } target true

end LspProxy.Rehearsal
