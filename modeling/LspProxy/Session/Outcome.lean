import LspProxy.Channel.Fault
import LspProxy.Session.ExitStatus

/-!
# How sessions end

A session that could be started has an outcome; one that could not, or that lost its server, has a
fault. Either decides the exit code of the proxy. A complaint is what the user gets to read of a
fault.
-/
namespace LspProxy.Session

/-- How a session came to its end. -/
inductive Outcome where
  | serverExited (status : ExitStatus)
  /-- The process that had started the proxy is gone. -/
  | parentExited
  | cancelled
  deriving Repr, DecidableEq

/-- The form of an outcome in reports. -/
def Outcome.display : Outcome → String
  | serverExited status =>
    "ServerExited(ExitStatus(unix_wait_status(" ++ toString status.word ++ ")))"
  | parentExited => "ParentExited"
  | cancelled => "Cancelled"

/-- Why a session has no outcome. -/
inductive Fault where
  /-- The server could not be started. -/
  | launch (program : Path) (failure : Failure)
  | transport (fault : Channel.Fault)
  /-- The server's end could not be awaited. -/
  | waiting (failure : Failure)
  deriving Repr, DecidableEq

/-- The wording of a fault. -/
def Fault.message : Fault → String
  | launch program failure => "failed to start " ++ program.display ++ ": " ++ failure.message
  | transport fault => "server transport failed: " ++ fault.message
  | waiting failure => "failed waiting for server: " ++ failure.message

/-! ## Exit codes -/

/-- The exit codes of the proxy's own. -/
inductive ExitCode where
  | success
  | failure
  | transport
  | permission
  | usage
  | internal
  deriving Repr, DecidableEq

def ExitCode.number : ExitCode → Nat
  | success => 0
  | failure => 1
  | transport => 3
  | permission => 50
  | usage => 64
  | internal => 125

/-- The exit code for an outcome: that of the server, if it ended by itself. -/
def Outcome.code : Outcome → Nat
  | serverExited status => status.code?.getD ExitCode.failure.number
  | parentExited | cancelled => ExitCode.success.number

/-- A fault as the user gets to know it. -/
structure Complaint where
  code : ExitCode
  message : String
  deriving Repr, DecidableEq

/-- The complaint about a failed call of the system. -/
def complainOfFailure (context : String) (failure : Failure) : Complaint :=
  ⟨if failure.cause = .permissionDenied then .permission else .internal,
    context ++ ": " ++ failure.message⟩

/-- The complaint about a fault of a session. -/
def complain (context : String) : Fault → Complaint
  | .transport (.unsupported system) =>
    ⟨.usage, context ++ ": " ++ (Channel.Fault.unsupported system).message⟩
  | .transport fault => ⟨.transport, context ++ ": " ++ fault.message⟩
  | .launch program failure => ⟨.transport, context ++ ": " ++ (Fault.launch program failure).message⟩
  | .waiting failure => ⟨.internal, context ++ ": " ++ (Fault.waiting failure).message⟩

end LspProxy.Session
