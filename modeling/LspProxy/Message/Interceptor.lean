import LspProxy.Message.Expansion
import LspProxy.Message.Method
import LspProxy.Workspace.Basic

/-!
# Interception

Every message of the client is forwarded. The interceptor alters two kinds: a diagnostic request is
widened to its whole document, and the first handshake is followed by the orders that open the
workspace. It never fails; a request that cannot be widened is forwarded as it came.
-/
namespace LspProxy.Message

/-- Whether the session has been opened. -/
inductive Phase where
  | awaitingHandshake
  | opened
  deriving Repr, DecidableEq

/-- An interceptor between two messages. -/
structure Interceptor where
  workspace : Workspace
  phase : Phase := .awaitingHandshake
  deriving Repr, DecidableEq

/-- What goes to the server for one message. -/
structure Outcome where
  forward : Bytes
  /-- What follows the message. -/
  inject : List Bytes := []
  deriving Repr, DecidableEq

/-- A diagnostic request widened, or as it came. -/
def widened (disk : Disk) (body : Bytes) : Log.Logged Bytes := do
  match ← expand disk body with
  | .ok text => return Text.Utf8.encode text
  | .error fault =>
    let level := match fault with
      | .unreadableFile _ _ => Log.Level.warning
      | _ => .debug
    Log.report level "diagnostic request forwarded unchanged" [("error", .shown fault.message)]
    return body

/-- Treat one message of the client. -/
def Interceptor.process (disk : Disk) (interceptor : Interceptor) (body : Bytes) :
    Log.Logged (Outcome × Interceptor) :=
  match intercepted? body, interceptor.phase with
  | some .diagnostic, _ => do return ({ forward := ← widened disk body }, interceptor)
  | some .handshake, .awaitingHandshake => do
    let workspace := interceptor.workspace
    Log.report .info "initialize seen; opening workspace"
      [("solution", .text workspace.solution), ("projects", .number workspace.projects.length)]
    return ({ forward := body, inject := workspace.notifications.map Text.Utf8.encode },
      { interceptor with phase := .opened })
  | _, _ => return ({ forward := body }, interceptor)

/-- Treat messages one after the other. -/
def Interceptor.processAll (disk : Disk) (interceptor : Interceptor) :
    List Bytes → Log.Logged (List (Outcome × Interceptor))
  | [] => return []
  | body :: rest => do
    let step ← interceptor.process disk body
    return step :: (← processAll disk step.2 rest)

end LspProxy.Message
