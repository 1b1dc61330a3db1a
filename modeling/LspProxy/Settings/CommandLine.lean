import LspProxy.Disk.Basic
import LspProxy.Log.Event
import LspProxy.Session.Outcome
import LspProxy.Settings.Basic
import LspProxy.Text.Decimal

/-!
# The command line

Arguments are read from left to right. An option takes its value from the next argument or from
behind an equals sign; a value of its own argument must not look like an option. Such a value is kept
pending and looked at only when the next known option comes or the arguments end, so an unknown
option in between is refused first. Options that are absent are looked up in the environment, and
what is still missing has a usual value. After two hyphens all arguments are the server's.
-/
namespace LspProxy.CommandLine

/-- The transports to choose from. -/
inductive Transport where
  | pipe
  | stdio
  deriving Repr, DecidableEq

/-- The forms of the proxy's own log. -/
inductive LogFormat where
  | text
  | json
  deriving Repr, DecidableEq

/-- The options that have a value. -/
inductive Key where
  | lsp
  | projectRoot
  | transport
  | pipeName
  | serverLogLevel
  | serverLogDir
  | connectTimeout
  | parentPoll
  | lspLog
  | logFormat
  | logLevel
  deriving Repr, DecidableEq

/-- What a double hyphen may introduce. -/
inductive Switch where
  | option (key : Key)
  | noParentWatch
  | help
  | version
  deriving Repr, DecidableEq

/-- The names of all switches. -/
def switches : List (String × Switch) :=
  [("lsp", .option .lsp), ("project-root", .option .projectRoot), ("transport", .option .transport),
   ("pipe-name", .option .pipeName), ("server-log-level", .option .serverLogLevel),
   ("server-log-dir", .option .serverLogDir), ("connect-timeout", .option .connectTimeout),
   ("parent-poll-ms", .option .parentPoll), ("no-parent-watch", .noParentWatch),
   ("lsp-log", .option .lspLog), ("log-format", .option .logFormat), ("log-level", .option .logLevel),
   ("help", .help), ("version", .version)]

/-- The options that the environment may give, by the names of their variables. -/
def environmentKeys : List (String × Key) :=
  [("LSPSHIM_LSP", .lsp), ("LSPSHIM_PROJECT_ROOT", .projectRoot),
   ("LSPSHIM_TRANSPORT", .transport), ("LSPSHIM_LSP_LOG", .lspLog)]

/-- Why reading stops before there are settings. -/
inductive Refusal where
  | missingRequired
  | invalidValue
  | unknownArgument
  /-- An option is given twice. -/
  | conflict
  /-- A number is ill formed or out of range. -/
  | invalidNumber
  /-- A switch without a value is given one. -/
  | unneededValue
  | invalidText
  /-- The user asked for help. -/
  | help
  /-- The user asked for the version, in short or in full. -/
  | version (full : Bool)
  deriving Repr, DecidableEq

/-- The exit code of a refusal: the user got what was asked for, or did not. -/
def Refusal.code : Refusal → Nat
  | help | version _ => 0
  | _ => 2

/-- The name and the version of the program, and in full also the system that it is made for. -/
def versionText (full : Bool) : String :=
  "lspshim 0.1.0" ++ (if full then " (x86_64-unknown-linux-gnu)" else "") ++ "\n"

/-- What a refusal writes to the standard output. Help and the reasons for a refusal have no fixed
text. -/
def Refusal.output : Refusal → String
  | version full => versionText full
  | _ => ""

/-- What the arguments and the environment have said. -/
structure Choices where
  lsp : Option Path := none
  projectRoot : Option Path := none
  transport : Option Transport := none
  pipeName : Option String := none
  serverLogLevel : Option String := none
  serverLogDir : Option Path := none
  connectTimeout : Option Nat := none
  parentPoll : Option Nat := none
  noParentWatch : Bool := false
  lspLog : Option Path := none
  logFormat : Option LogFormat := none
  logLevel : Option Log.Level := none
  serverArguments : List Bytes := []
  deriving Repr, DecidableEq

namespace Choices

/-- The key has a value already. -/
def has (choices : Choices) : Key → Bool
  | .lsp => choices.lsp.isSome
  | .projectRoot => choices.projectRoot.isSome
  | .transport => choices.transport.isSome
  | .pipeName => choices.pipeName.isSome
  | .serverLogLevel => choices.serverLogLevel.isSome
  | .serverLogDir => choices.serverLogDir.isSome
  | .connectTimeout => choices.connectTimeout.isSome
  | .parentPoll => choices.parentPoll.isSome
  | .lspLog => choices.lspLog.isSome
  | .logFormat => choices.logFormat.isSome
  | .logLevel => choices.logLevel.isSome

end Choices

/-! ## Values -/

/-- A path, of whatever bytes, but not empty. -/
def readPath (value : Bytes) : Except Refusal Path :=
  if value.isEmpty then .error .invalidValue else .ok value

/-- A text. -/
def readText (value : Bytes) : Except Refusal String :=
  match Text.Utf8.toString? value with
  | some text => .ok text
  | none => .error .invalidText

/-- One of the names of a table. -/
def readName {α : Type} (table : List (String × α)) (value : Bytes) : Except Refusal α :=
  match (Text.Utf8.toString? value).bind (List.lookup · table) with
  | some found => .ok found
  | none => .error .invalidValue

/-- A number of 64 bits that is not below `least`. -/
def readNumber (least : Nat) (value : Bytes) : Except Refusal Nat := do
  let text ← readText value
  match Text.Decimal.below? Text.Decimal.wordBound text.toList with
  | some number => if least ≤ number then return number else .error .invalidNumber
  | none => .error .invalidNumber

def transports : List (String × Transport) := [("pipe", .pipe), ("stdio", .stdio)]

def logFormats : List (String × LogFormat) := [("text", .text), ("json", .json)]

def logLevels : List (String × Log.Level) :=
  [("error", .error), ("warn", .warning), ("info", .info), ("debug", .debug), ("trace", .trace)]

/-- Take in the value of a key. -/
def Choices.put (choices : Choices) (key : Key) (value : Bytes) : Except Refusal Choices :=
  match key with
  | .lsp => do return { choices with lsp := some (← readPath value) }
  | .projectRoot => do return { choices with projectRoot := some (← readPath value) }
  | .transport => do return { choices with transport := some (← readName transports value) }
  | .pipeName => do return { choices with pipeName := some (← readText value) }
  | .serverLogLevel => do return { choices with serverLogLevel := some (← readText value) }
  | .serverLogDir => do return { choices with serverLogDir := some (← readPath value) }
  | .connectTimeout => do return { choices with connectTimeout := some (← readNumber 0 value) }
  | .parentPoll => do return { choices with parentPoll := some (← readNumber 1 value) }
  | .lspLog => do return { choices with lspLog := some (← readPath value) }
  | .logFormat => do return { choices with logFormat := some (← readName logFormats value) }
  | .logLevel => do return { choices with logLevel := some (← readName logLevels value) }

/-! ## Arguments -/

/-- What has been read, and the key whose value is pending: not given yet, or not looked at. -/
structure Progress where
  choices : Choices := {}
  pending : Option (Key × Option Bytes) := none
  deriving Repr, DecidableEq

/-- Take in a value from the command line, where no key may come twice. -/
def Choices.add (choices : Choices) (key : Key) (value : Bytes) : Except Refusal Choices :=
  if choices.has key then .error .conflict else choices.put key value

/-- Look at the pending value. -/
def Progress.settle (progress : Progress) : Except Refusal Choices :=
  match progress.pending with
  | none => .ok progress.choices
  | some (_, none) => .error .invalidValue
  | some (key, some value) => progress.choices.add key value

/-- A switch has been met, with or without a value behind an equals sign. -/
def Progress.meet (progress : Progress) : Switch → Option Bytes → Except Refusal Progress
  | .option key, some value => do return { choices := ← (← progress.settle).add key value }
  | .option key, none => do return { choices := ← progress.settle, pending := some (key, none) }
  | _, some _ => .error .unneededValue
  | .noParentWatch, none => do
    let choices ← progress.settle
    if choices.noParentWatch then .error .conflict
    else return { choices := { choices with noParentWatch := true } }
  | .help, none => do
    let _ ← progress.settle
    .error .help
  | .version, none => do
    let _ ← progress.settle
    .error (.version true)

/-- Some other argument has been met: the value that is waited for, or nothing known. -/
def Progress.take (progress : Progress) (argument : Bytes) : Except Refusal Progress :=
  match progress.pending with
  | some (key, none) => .ok { progress with pending := some (key, some argument) }
  | _ => .error .unknownArgument

def hyphen : UInt8 := 0x2D

def equalsSign : UInt8 := 0x3D

/-- A switch without its hyphens, and the value behind an equals sign. -/
def splitValue (argument : Bytes) : Bytes × Option Bytes :=
  let name := argument.takeWhile (· ≠ equalsSign)
  match argument.drop name.length with
  | [] => (name, none)
  | _ :: value => (name, some value)

/-- Read one argument before the server's. -/
def Progress.read (progress : Progress) (argument : Bytes) : Except Refusal Progress :=
  match argument with
  | 0x2D :: 0x2D :: long =>
    let (name, value) := splitValue long
    match (Text.Utf8.toString? name).bind (List.lookup · switches) with
    | some switch => progress.meet switch value
    | none => .error .unknownArgument
  | 0x2D :: short :: _ =>
    if short = 0x68 then progress.meet .help none
    else if short = 0x56 then do
      let _ ← progress.settle
      .error (.version false)
    else .error .unknownArgument
  | _ => progress.take argument

/-- Read all arguments. -/
def Progress.readAll (progress : Progress) : List Bytes → Except Refusal Choices
  | [] => progress.settle
  | argument :: rest =>
    if argument = [hyphen, hyphen] then do
      return { (← progress.settle) with serverArguments := rest }
    else do (← progress.read argument).readAll rest

/-- Look up in the environment what the arguments have not said. -/
def Choices.complete (choices : Choices) (environment : List (String × Bytes)) :
    Except Refusal Choices :=
  environmentKeys.foldlM (fun choices (name, key) =>
    match choices.has key, environment.lookup name with
    | false, some value => choices.put key value
    | _, _ => .ok choices) choices

/-! ## Invocations -/

/-- A complete command line. -/
structure Invocation where
  lsp : Path
  choices : Choices
  deriving Repr, DecidableEq

/-- Read a command line in an environment. -/
def read (environment : List (String × Bytes)) (arguments : List Bytes) :
    Except Refusal Invocation := do
  let choices ← (← Progress.readAll {} arguments).complete environment
  match choices.lsp with
  | some lsp => return { lsp, choices }
  | none => .error .missingRequired

namespace Invocation

def logFormat (invocation : Invocation) : LogFormat := invocation.choices.logFormat.getD .text

def logLevel (invocation : Invocation) : Log.Level := invocation.choices.logLevel.getD .warning

/-- The endpoint that is asked for. A channel without a name gets the fresh one. -/
def endpoint (invocation : Invocation) (fresh : String) : Except Session.Complaint Endpoint :=
  match invocation.choices.transport.getD .pipe, invocation.choices.pipeName with
  | .stdio, some _ => .error ⟨.usage, "--pipe-name cannot be used with --transport stdio"⟩
  | .stdio, none => .ok .standard
  | .pipe, name => .ok (.named (name.getD fresh))

/-- The settings that a command line asks for. Without a root the working folder is one. -/
def settings (invocation : Invocation) (workingPath : Except Failure Path) (fresh : String) :
    Except Session.Complaint Settings := do
  let choices := invocation.choices
  let projectRoot ← match choices.projectRoot with
    | some root => pure root
    | none =>
      workingPath.mapError (Session.complainOfFailure "cannot determine current directory")
  let usual := Settings.usual invocation.lsp projectRoot (← invocation.endpoint fresh)
  return { usual with
    arguments := choices.serverArguments
    serverLogLevel := choices.serverLogLevel.getD usual.serverLogLevel
    serverLogFolder := choices.serverLogDir.getD usual.serverLogFolder
    connectLimit := (choices.connectTimeout.map Duration.ofSeconds).getD usual.connectLimit
    parentInterval :=
      if choices.noParentWatch then none
      else (choices.parentPoll.map Duration.ofMilliseconds).or usual.parentInterval
    messageLog := choices.lspLog }

end Invocation

/-- An ill-formed number is looked at only after the unknown switch that follows it. -/
example :
    (match read [] [Bytes.ascii "--parent-poll-ms", Bytes.ascii "0", Bytes.ascii "--bad"] with
      | .error .unknownArgument => true
      | _ => false) = true := by decide +kernel

end LspProxy.CommandLine
