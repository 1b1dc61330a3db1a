import LspProxy.Message.Identifier

/-!
# Diagnostic requests

The parts of a diagnostic request that the proxy knows. Other members are ignored when a request is
read, so they are missing when it is written again. Members that are absent stay absent; a protocol
version that is absent is written as the usual one.

Each type has a reader, which stops at the first fault of the text, and a printer.
-/
namespace LspProxy.Message

/-- A place in a document: a line, and a column in UTF-16 code units. -/
structure Position where
  line : Nat
  character : Nat
  deriving Repr, DecidableEq

/-- A stretch of a document. -/
structure Range where
  start : Position
  stop : Position
  deriving Repr, DecidableEq

/-- The document that a request is about. -/
structure TextDocument where
  uri : String
  deriving Repr, DecidableEq

/-- The parameters of a diagnostic request. -/
structure DiagnosticParams where
  textDocument : TextDocument
  range : Option Range := none
  workDoneToken : Option Identifier := none
  partialResultToken : Option Identifier := none
  deriving Repr, DecidableEq

/-- A request for the diagnostics of a document. -/
structure DiagnosticRequest where
  version : String
  id : Identifier
  method : String
  params : DiagnosticParams
  deriving Repr, DecidableEq

/-- The version of the protocol. -/
def usualVersion : String := "2.0"

/-- What has been read of a record of two parts. -/
structure Halves (α : Type) where
  first : Option α := none
  second : Option α := none

/-- A record of two required fields of one type. -/
def readHalves {α : Type} (firstKey secondKey : String) (read : Nat → Bytes → Except Json.Fault (α × Bytes))
    (depth : Nat) (input : Bytes) : Except Json.Fault ((α × α) × Bytes) := do
  let fields : List (Json.Field (Halves α)) :=
    [⟨firstKey, true, fun state => state.first.isSome, fun state depth input => do
        let (value, rest) ← read depth input
        return ({ state with first := some value }, rest)⟩,
     ⟨secondKey, true, fun state => state.second.isSome, fun state depth input => do
        let (value, rest) ← read depth input
        return ({ state with second := some value }, rest)⟩]
  let (state, rest) ← Json.readRecord fields {} depth input
  match state.first, state.second with
  | some first, some second => return ((first, second), rest)
  | _, _ => .error .mismatched

/-- The least number that no line or column reaches. -/
def coordinateBound : Nat := 0x100000000

def Position.read (depth : Nat) (input : Bytes) : Except Json.Fault (Position × Bytes) := do
  let ((line, character), rest) ←
    readHalves "line" "character" (fun _ => Json.readNatural coordinateBound) depth input
  return (⟨line, character⟩, rest)

def Position.print (position : Position) : List Char :=
  Json.printObject
    [("line", Json.printNatural position.line), ("character", Json.printNatural position.character)]

def Range.read (depth : Nat) (input : Bytes) : Except Json.Fault (Range × Bytes) := do
  let ((start, stop), rest) ← readHalves "start" "end" Position.read depth input
  return (⟨start, stop⟩, rest)

def Range.print (range : Range) : List Char :=
  Json.printObject [("start", range.start.print), ("end", range.stop.print)]

def TextDocument.read (depth : Nat) (input : Bytes) : Except Json.Fault (TextDocument × Bytes) := do
  let field : Json.Field (Option String) :=
    ⟨"uri", true, Option.isSome, fun _ _ input => do
      let (uri, rest) ← Json.readText input
      return (some uri, rest)⟩
  match ← Json.readRecord [field] none depth input with
  | (some uri, rest) => return (⟨uri⟩, rest)
  | (none, _) => .error .mismatched

def TextDocument.print (document : TextDocument) : List Char :=
  Json.printObject [("uri", Json.quote document.uri)]

/-- What has been read of the parameters. -/
structure ParamsDraft where
  textDocument : Option TextDocument := none
  range : Option (Option Range) := none
  workDoneToken : Option (Option Identifier) := none
  partialResultToken : Option (Option Identifier) := none

/-- The fields of the parameters, in order. -/
def paramsFields : List (Json.Field ParamsDraft) :=
  [⟨"textDocument", true, fun draft => draft.textDocument.isSome, fun draft depth input => do
      let (value, rest) ← TextDocument.read depth input
      return ({ draft with textDocument := some value }, rest)⟩,
   ⟨"range", false, fun draft => draft.range.isSome, fun draft depth input => do
      let (value, rest) ← Json.readOptional (Range.read depth) input
      return ({ draft with range := some value }, rest)⟩,
   ⟨"workDoneToken", false, fun draft => draft.workDoneToken.isSome, fun draft depth input => do
      let (value, rest) ← Json.readOptional (Identifier.read depth) input
      return ({ draft with workDoneToken := some value }, rest)⟩,
   ⟨"partialResultToken", false, fun draft => draft.partialResultToken.isSome,
      fun draft depth input => do
      let (value, rest) ← Json.readOptional (Identifier.read depth) input
      return ({ draft with partialResultToken := some value }, rest)⟩]

def DiagnosticParams.read (depth : Nat) (input : Bytes) : Except Json.Fault (DiagnosticParams × Bytes) := do
  let (draft, rest) ← Json.readRecord paramsFields {} depth input
  match draft.textDocument with
  | some textDocument =>
    return ({ textDocument, range := draft.range.join, workDoneToken := draft.workDoneToken.join,
              partialResultToken := draft.partialResultToken.join }, rest)
  | none => .error .mismatched

/-- A member that is written only if it is there. -/
def optionalMember {α : Type} (key : String) (print : α → List Char) :
    Option α → List (String × List Char)
  | none => []
  | some value => [(key, print value)]

def DiagnosticParams.print (params : DiagnosticParams) : List Char :=
  Json.printObject
    (("textDocument", params.textDocument.print) ::
      (optionalMember "range" Range.print params.range ++
        (optionalMember "workDoneToken" Identifier.print params.workDoneToken ++
          optionalMember "partialResultToken" Identifier.print params.partialResultToken)))

/-- What has been read of a request. -/
structure RequestDraft where
  version : Option String := none
  id : Option Identifier := none
  method : Option String := none
  params : Option DiagnosticParams := none

/-- The fields of a request, in order. -/
def requestFields : List (Json.Field RequestDraft) :=
  [⟨"jsonrpc", false, fun draft => draft.version.isSome, fun draft _ input => do
      let (value, rest) ← Json.readText input
      return ({ draft with version := some value }, rest)⟩,
   ⟨"id", true, fun draft => draft.id.isSome, fun draft depth input => do
      let (value, rest) ← Identifier.read depth input
      return ({ draft with id := some value }, rest)⟩,
   ⟨"method", true, fun draft => draft.method.isSome, fun draft _ input => do
      let (value, rest) ← Json.readText input
      return ({ draft with method := some value }, rest)⟩,
   ⟨"params", true, fun draft => draft.params.isSome, fun draft depth input => do
      let (value, rest) ← DiagnosticParams.read depth input
      return ({ draft with params := some value }, rest)⟩]

def DiagnosticRequest.read (depth : Nat) (input : Bytes) : Except Json.Fault (DiagnosticRequest × Bytes) := do
  let (draft, rest) ← Json.readRecord requestFields {} depth input
  match draft.id, draft.method, draft.params with
  | some id, some method, some params =>
    return ({ version := draft.version.getD usualVersion, id, method, params }, rest)
  | _, _, _ => .error .mismatched

def DiagnosticRequest.print (request : DiagnosticRequest) : List Char :=
  Json.printObject
    [("jsonrpc", Json.quote request.version), ("id", request.id.print),
     ("method", Json.quote request.method), ("params", request.params.print)]

/-- A whole text as a value of one of the types above. -/
def parse {α : Type} (read : Nat → Bytes → Except Json.Fault (α × Bytes)) (text : Bytes) : Except Json.Fault α := do
  Json.finish (← read Json.depthLimit text)

end LspProxy.Message
