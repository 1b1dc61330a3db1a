import LspProxy.Message.Interceptor
import LspProxy.Proofs.Json.Strings

/-!
# Opening the workspace

The orders that open the workspace follow the first handshake and no other message, and what else goes
to the server are the client's own messages, widened where that is possible (`bootstrap_once`). The law
is about whole runs: each message is treated on a file system of its own, so nothing is assumed of what
happens to files in between. Where the interceptor stands depends on one thing only, whether a handshake
has been among the messages so far, and a step adds to that by its own message alone.

The orders are given octet by octet. The texts of the workspace stand in them in quotes, and are read
back from there as they are.
-/
namespace LspProxy.Message

/-! ## The orders -/

/-- The octets of a text in quotes. -/
def written (text : String) : Bytes := Text.Utf8.encode (Json.quote text)

/-- The octets of an order with one parameter. -/
def order (method key : String) (value : Bytes) : Bytes :=
  Bytes.ascii "\x7b\"jsonrpc\":\"2.0\",\"method\":\"" ++ Bytes.ascii method ++
    Bytes.ascii "\",\"params\":\x7b\"" ++ Bytes.ascii key ++ Bytes.ascii "\":" ++ value ++
    Bytes.ascii "\x7d\x7d"

/-- The octets of the orders that open a workspace: that of the solution, if there is one, and that of
all projects in order, even if there are none. -/
def openingOrders (workspace : Workspace) : List Bytes :=
  (if workspace.solution = "" then []
    else [order "solution/open" "solution" (written workspace.solution)]) ++
  [order "project/open" "projects"
    (Bytes.ascii "[" ++ List.intercalate (Bytes.ascii ",") (workspace.projects.map written) ++
      Bytes.ascii "]")]

/-- Parts with commas between them are written one after the other, with the octet of the comma between
them. -/
theorem encode_commaSeparated (parts : List (List Char)) :
    Text.Utf8.encode (Json.commaSeparated parts) =
      List.intercalate (Bytes.ascii ",") (parts.map Text.Utf8.encode) := by
  have comma : Text.Utf8.encode [','] = Bytes.ascii "," := by decide +kernel
  induction parts with
  | nil => rfl
  | cons part others inductionHypothesis =>
    cases others with
    | nil => simp [Json.commaSeparated]
    | cons next later =>
      have split : Json.commaSeparated (part :: next :: later) =
          part ++ ([','] ++ Json.commaSeparated (next :: later)) := rfl
      rw [split, Text.Utf8.encode_append, Text.Utf8.encode_append, comma, inductionHypothesis]
      simp [List.intercalate]

/-- A notification with one parameter is an order, if its method and the key of the parameter are
written without escapes. -/
theorem encode_notification {method key : String}
    (plainMethod : written method = Bytes.ascii "\"" ++ (Bytes.ascii method ++ Bytes.ascii "\""))
    (plainKey : written key = Bytes.ascii "\"" ++ (Bytes.ascii key ++ Bytes.ascii "\""))
    (value : List Char) :
    Text.Utf8.encode (Workspace.notification method (Json.printObject [(key, value)])) =
      order method key (Text.Utf8.encode value) := by
  have shape : Workspace.notification method (Json.printObject [(key, value)]) =
      ('{' :: (Json.quote "jsonrpc" ++ ':' :: Json.quote "2.0") ++ ',' :: Json.quote "method" ++ [':']) ++
        (Json.quote method ++ ((',' :: Json.quote "params" ++ [':', '{']) ++
          (Json.quote key ++ ([':'] ++ (value ++ ['}', '}']))))) := by
    simp [Workspace.notification, Json.printObject, Json.commaSeparated]
  have front : Text.Utf8.encode
        ('{' :: (Json.quote "jsonrpc" ++ ':' :: Json.quote "2.0") ++ ',' :: Json.quote "method" ++ [':']) ++
      Bytes.ascii "\"" = Bytes.ascii "\x7b\"jsonrpc\":\"2.0\",\"method\":\"" := by
    decide +kernel
  have middle : Bytes.ascii "\"" ++ (Text.Utf8.encode (',' :: Json.quote "params" ++ [':', '{']) ++
      Bytes.ascii "\"") = Bytes.ascii "\",\"params\":\x7b\"" := by
    decide +kernel
  have colon : Bytes.ascii "\"" ++ Text.Utf8.encode [':'] = Bytes.ascii "\":" := by decide +kernel
  have back : Text.Utf8.encode ['}', '}'] = Bytes.ascii "\x7d\x7d" := by decide +kernel
  unfold written at plainMethod plainKey
  unfold order
  rw [shape, ← front, ← middle, ← colon, ← back]
  simp only [Text.Utf8.encode_append, plainMethod, plainKey, List.append_assoc]

/-- The orders of a workspace, as they are written. -/
theorem encode_notifications (workspace : Workspace) :
    workspace.notifications.map Text.Utf8.encode = openingOrders workspace := by
  have solution (text : String) : Text.Utf8.encode (Workspace.openSolution text) =
      order "solution/open" "solution" (written text) :=
    encode_notification (by decide +kernel) (by decide +kernel) _
  have projects : Text.Utf8.encode (Workspace.openProjects workspace.projects) =
      order "project/open" "projects" (Bytes.ascii "[" ++
        List.intercalate (Bytes.ascii ",") (workspace.projects.map written) ++ Bytes.ascii "]") := by
    have opening : Text.Utf8.encode ['['] = Bytes.ascii "[" := by decide +kernel
    have closing : Text.Utf8.encode [']'] = Bytes.ascii "]" := by decide +kernel
    have array : Json.printArray (workspace.projects.map Json.quote) =
        ['['] ++ Json.commaSeparated (workspace.projects.map Json.quote) ++ [']'] := rfl
    unfold Workspace.openProjects
    rw [encode_notification (by decide +kernel) (by decide +kernel), array, Text.Utf8.encode_append,
      Text.Utf8.encode_append, encode_commaSeparated, opening, closing, List.map_map]
    rfl
  unfold Workspace.notifications Workspace.solution? openingOrders
  split
  · simp [projects]
  · simp [projects, solution]

/-! ## One message -/

/-- Whether a message is a handshake. -/
def isHandshake (body : Bytes) : Bool := intercepted? body = some .handshake

/-- What goes to the server in the place of a message: a diagnostic request as it is widened, if it can
be, and any other message as it came. -/
def forwarded (disk : Disk) (body : Bytes) : Bytes :=
  match intercepted? body, (expand disk body).value with
  | some .diagnostic, .ok text => Text.Utf8.encode text
  | _, _ => body

/-- A diagnostic request goes on as `forwarded` says. -/
theorem widened_value {disk : Disk} {body : Bytes} (diagnostic : intercepted? body = some .diagnostic) :
    (widened disk body).value = forwarded disk body := by
  unfold widened forwarded
  rw [Log.Logged.value_bind, diagnostic]
  cases (expand disk body).value with
  | ok text => rfl
  | error fault => rfl

/-- One message: what is forwarded depends on the message and the files alone, what is injected and where
the interceptor stands afterwards on whether the message is a handshake and whether it is the first. -/
theorem Interceptor.process_value (disk : Disk) (interceptor : Interceptor) (body : Bytes) :
    (interceptor.process disk body).value =
      ({ forward := forwarded disk body
         inject := if isHandshake body ∧ interceptor.phase = .awaitingHandshake then
           openingOrders interceptor.workspace else [] },
       { interceptor with phase := if isHandshake body then .opened else interceptor.phase }) := by
  have orders := encode_notifications interceptor.workspace
  obtain ⟨workspace, phase⟩ := interceptor
  unfold process
  cases kind : intercepted? body with
  | none => simp [forwarded, isHandshake, kind]
  | some kind' =>
    cases kind' with
    | diagnostic => simp [isHandshake, kind, widened_value kind]
    | handshake =>
      cases phase with
      | awaitingHandshake => simp [forwarded, isHandshake, kind, orders]
      | opened => simp [forwarded, isHandshake, kind]

/-! ## Runs -/

/-- Treat messages one after the other, each on the files as they are then. -/
def Interceptor.processEach (interceptor : Interceptor) :
    List (Disk × Bytes) → List (Outcome × Interceptor)
  | [] => []
  | (disk, body) :: rest =>
    let step := (interceptor.process disk body).value
    step :: processEach step.2 rest

/-- Once the session is open nothing is injected any more, and it stays open. -/
theorem Interceptor.processEach_opened (workspace : Workspace) (messages : List (Disk × Bytes)) :
    processEach { workspace, phase := .opened } messages =
      messages.map fun message => ({ forward := forwarded message.1 message.2 },
        { workspace, phase := .opened }) := by
  induction messages with
  | nil => rfl
  | cons message others inductionHypothesis =>
    obtain ⟨disk, body⟩ := message
    unfold processEach
    rw [process_value]
    simp [inductionHypothesis]

/-- The orders follow the first handshake and no other message. The messages before it leave the session
as it was, those from it on find or leave it open, and every message is forwarded, as it came or, where
a diagnostic request can be widened, widened. Each text of the workspace is read back from the orders as
it is, whatever stands behind it. -/
theorem bootstrap_once (workspace : Workspace) (messages : List (Disk × Bytes)) :
    let first := messages.findIdx fun message => isHandshake message.2
    (∀ i : Nat, (Interceptor.processEach { workspace } messages)[i]? =
      messages[i]?.map fun message =>
        (({ forward := forwarded message.1 message.2
            inject := if i = first then openingOrders workspace else [] } : Outcome),
         ({ workspace, phase := if i < first then .awaitingHandshake else .opened } : Interceptor))) ∧
    (∀ text ∈ workspace.solution :: workspace.projects, ∀ rest,
      Json.readText (written text ++ rest) = .ok (text, rest)) := by
  refine ⟨?_, fun text _ rest => Json.readText_quote text rest⟩
  induction messages with
  | nil => simp [Interceptor.processEach]
  | cons message others inductionHypothesis =>
    obtain ⟨disk, body⟩ := message
    intro i
    unfold Interceptor.processEach
    rw [Interceptor.process_value, List.findIdx_cons]
    cases handshake : isHandshake body with
    | true =>
      simp only [cond_true]
      cases i with
      | zero => simp
      | succ i => simp [Interceptor.processEach_opened]
    | false =>
      simp only [cond_false]
      cases i with
      | zero => simp
      | succ i => simpa using inductionHypothesis i

end LspProxy.Message
