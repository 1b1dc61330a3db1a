import LspProxy.Message.DiagnosticRequest

/-!
# The method of a message

The one member that decides how a message is treated. It is read from the message as a record of
one optional field, so a message without it has no method, and one that is no record has none
either. A request with the field given as an array of one element counts as well.

`intercepted?` says which messages are not merely passed on. It looks for the names of the two
methods among the raw bytes first and reads the message only if one is found; `probed?` is the same
question without that look.
-/
namespace LspProxy.Message

/-- The method of the handshake that opens a session. -/
def initializeMethod : String := "initialize"

/-- The method of a diagnostic request. -/
def diagnosticMethod : String := "textDocument/diagnostic"

/-- The one field of a message that is looked at. -/
def methodField : Json.Field (Option (Option String)) :=
  ⟨"method", false, Option.isSome, fun _ _ input => do
    let (value, rest) ← Json.readOptional Json.readText input
    return (some value, rest)⟩

/-- The method of a message, with so many brackets left. -/
def readMethod (depth : Nat) (input : Bytes) : Except Json.Fault (Option String × Bytes) := do
  let (value, rest) ← Json.readRecord [methodField] none depth input
  return (value.join, rest)

/-- The method of a whole message. -/
def method? (body : Bytes) : Except Json.Fault (Option String) := parse readMethod body

/-- The two kinds of message that are not merely passed on. -/
inductive Intercepted where
  | handshake
  | diagnostic
  deriving Repr, DecidableEq

/-- The kind of message that a method makes. -/
def Intercepted.ofMethod? (method : String) : Option Intercepted :=
  if method = diagnosticMethod then some .diagnostic
  else if method = initializeMethod then some .handshake
  else none

/-- The kind of a message, by its method alone. -/
def probed? (body : Bytes) : Option Intercepted := do
  let method ← (method? body).toOption.join
  Intercepted.ofMethod? method

/-- The kind that the raw bytes suggest: the name of the diagnostic method, or else that of the
handshake, stands somewhere among them. -/
def suggested? (body : Bytes) : Option Intercepted :=
  if Bytes.contains (Bytes.ascii diagnosticMethod) body then some .diagnostic
  else if Bytes.contains (Bytes.ascii initializeMethod) body then some .handshake
  else none

/-- The kind of a message. A message is read only if its raw bytes suggest a kind, and is a
diagnostic request only if they suggest that. -/
def intercepted? (body : Bytes) : Option Intercepted := do
  let candidate ← suggested? body
  let method ← (method? body).toOption.join
  if candidate = .diagnostic ∧ method = diagnosticMethod then some .diagnostic
  else if method = initializeMethod then some .handshake
  else none

end LspProxy.Message
