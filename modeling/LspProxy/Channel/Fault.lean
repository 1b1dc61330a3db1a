import LspProxy.Disk.Path
import LspProxy.Duration
import LspProxy.Failure

/-!
# Why the server cannot be reached

The ways in which the connection to the server fails, with their wordings.
-/
namespace LspProxy.Channel

/-- A failure to reach the server. -/
inductive Fault where
  /-- The channel cannot be made. -/
  | binding (path : Path) (failure : Failure)
  /-- A connection cannot be accepted. -/
  | accepting (failure : Failure)
  /-- The server did not connect in time. -/
  | timeout (name : String) (limit : Duration)
  /-- The path of the channel does not fit into an address. -/
  | pathTooLong (path : Path) (length limit : Nat)
  /-- A standard stream of the server is not at hand. -/
  | notPiped (stream : String)
  | broken (failure : Failure)
  /-- The system has no named channels. -/
  | unsupported (system : String)
  deriving Repr, DecidableEq

/-- The wording of a failure. -/
def Fault.message : Fault → String
  | binding path failure => "failed to bind to " ++ path.display ++ ": " ++ failure.message
  | accepting failure => "failed to accept connection: " ++ failure.message
  | timeout name limit =>
    "server did not connect to channel '" ++ name ++ "' within " ++ limit.display
  | pathTooLong path length limit =>
    "socket path too long (" ++ toString length ++ " bytes, max " ++ toString limit ++ "): "
      ++ path.display
  | notPiped stream => "child process " ++ stream ++ " is not piped"
  | broken failure => "transport I/O error: " ++ failure.message
  | unsupported system => "named channels are not supported on " ++ system

end LspProxy.Channel
