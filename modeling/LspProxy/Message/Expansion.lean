import LspProxy.Disk.Basic
import LspProxy.Log.Event
import LspProxy.Message.DiagnosticRequest
import LspProxy.Text.LineMetrics
import LspProxy.Uri.FilePath

/-!
# The range of a diagnostic request

A diagnostic request is widened to the whole of its document: the range starts at the very beginning
and ends after the last line, both measured in the file that the document's URI stands for.
Everything else about the request stays as it is.
-/
namespace LspProxy.Message

/-- Why a request cannot be widened. -/
inductive ExpansionFault where
  /-- The message is not a diagnostic request. -/
  | unreadable (fault : Json.Fault)
  | invalidUri (uri : String) (fault : Uri.Fault)
  /-- The document is not a file of this machine. -/
  | notAFile (uri : String)
  | unreadableFile (path : Path) (failure : Failure)
  deriving Repr, DecidableEq

/-- The wording of a fault. -/
def ExpansionFault.message : ExpansionFault → String
  | unreadable .malformed => "json error: malformed text"
  | unreadable .truncated => "json error: text ends early"
  | unreadable .mismatched => "json error: not a diagnostic request"
  | invalidUri uri fault => "invalid document uri '" ++ uri ++ "': " ++ fault.message
  | notAFile uri => "document uri '" ++ uri ++ "' is not a local file"
  | unreadableFile path failure => "failed to read " ++ path.display ++ ": " ++ failure.message

/-- The file that a document's URI stands for. -/
def documentPath (uri : String) : Except ExpansionFault Path :=
  match Uri.parse uri.toList with
  | .error fault => .error (.invalidUri uri fault)
  | .ok parsed =>
    match parsed.toPath? with
    | some path => .ok path
    | none => .error (.notAFile uri)

/-- The range of a whole text. -/
def wholeRange (metrics : Text.LineMetrics) : Range := ⟨⟨0, 0⟩, ⟨metrics.lines, metrics.last⟩⟩

/-- A request with another range. -/
def DiagnosticRequest.withRange (request : DiagnosticRequest) (range : Range) : DiagnosticRequest :=
  { request with params := { request.params with range := some range } }

/-- A request widened to all of its document, with the path and the measure of the document. -/
def widen (disk : Disk) (body : Bytes) :
    Except ExpansionFault (DiagnosticRequest × Path × Text.LineMetrics) := do
  let request ← (parse DiagnosticRequest.read body).mapError .unreadable
  let path ← documentPath request.params.textDocument.uri
  let content ← (disk.read path).mapError (.unreadableFile path)
  let metrics := Text.lineMetrics (Text.Utf8.lossy content)
  return (request.withRange (wholeRange metrics), path, metrics)

/-- The written form of the widened request. -/
def expand (disk : Disk) (body : Bytes) : Log.Logged (Except ExpansionFault (List Char)) :=
  match widen disk body with
  | .error fault => return .error fault
  | .ok (request, path, metrics) => do
    Log.report .debug "expanded diagnostic range"
      [("path", .shown path.quoted), ("lines", .number metrics.lines),
       ("last_line_len", .number metrics.last)]
    return .ok request.print

end LspProxy.Message
