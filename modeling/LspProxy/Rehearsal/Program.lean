import LspProxy.Log.Line
import LspProxy.Rehearsal.Performance
import LspProxy.Settings.CommandLine
import LspProxy.Workspace.Discovery

/-!
# The whole program

The program reads its command line, finds the workspace, runs one session, and exits with the code
that the session's result stands for. What goes wrong is told on the error output, after what the log
and the server have written there. A command line that is refused ends the program before anything
else happens.

The server may be the program itself, wrapped around another server, and so on to some depth.
-/
namespace LspProxy.Rehearsal

/-- One use of the program. -/
structure Usage where
  arguments : List Bytes
  environment : List (String × Bytes)
  disk : Disk
  /-- The standard input. -/
  input : Bytes
  /-- The standard input ends after that. -/
  inputEnds : Bool
  cancelling : Cancelling := .never
  programFolders : List Path
  /-- The number of the server's process. -/
  process : Nat
  /-- The number of the process that started the program. -/
  parent : Nat
  /-- The name of a channel that gets none from the user. -/
  fresh : String
  /-- The time that log lines show, or what stands for it. -/
  moment : String := "<time>"

/-- What a use of the program came to. -/
structure Conclusion where
  /-- The exit code, if the program ended. -/
  code : Option Nat
  output : Bytes := []
  screen : List Appearance := []
  disk : Disk
  format : CommandLine.LogFormat := .text
  /-- The reason for a refusal, if the command line was refused. -/
  refusal : Option CommandLine.Refusal := none

/-- What the user gets to read of a complaint. -/
def complaintText (complaint : Session.Complaint) : Bytes :=
  Text.Utf8.ofString ("error: " ++ complaint.message ++ "\n")

/-- What of the error output is seen where the least important level is `least`. -/
def visible (least : Log.Level) (screen : List Appearance) : List Appearance :=
  screen.filter fun appearance =>
    match appearance with
    | .report event => least.isWithin event.level
    | .bytes _ => true

/-- The client of the program: its standard input. The parent lives as long as the program. -/
def Usage.beginning (usage : Usage) (settings : Settings) (workspace : Workspace) :
    Session.Beginning where
  settings
  workspace
  probe := { parent := some usage.parent, alive := fun _ => true }
  disk := usage.disk
  programFolders := usage.programFolders
  process := usage.process
  client :=
    { content := usage.input, capacity := usage.input.length, writable := ! usage.inputEnds }

/-- The exit code and the complaint that the result of a session stands for. -/
def verdict : Except Session.Fault Session.Outcome → Nat × List Appearance
  | .ok outcome => (outcome.code, [])
  | .error fault =>
    let complaint := Session.complain "session failed" fault
    (complaint.code.number, [.bytes (complaintText complaint)])

/-- What appears, in bytes, each report as a line with the same time. -/
def written (format : CommandLine.LogFormat) (time : String) : Appearance → Bytes
  | .bytes content => content
  | .report event =>
    let line := match format with
      | .text => event.plainLine time
      | .json => event.jsonLine time
    Text.Utf8.ofString (line ++ "\n")

/-- Use the program with a command line that was accepted. -/
def Usage.runWith (usage : Usage) (again : List Bytes → Option Action)
    (invocation : CommandLine.Invocation) : Conclusion :=
  let format := invocation.logFormat
  match invocation.settings usage.disk.workingPath usage.fresh with
  | .error complaint =>
    { code := some complaint.code.number, screen := [.bytes (complaintText complaint)]
      disk := usage.disk, format }
  | .ok settings =>
    let found := Workspace.discover usage.disk settings.projectRoot
    let performance := performAgain again (usage.beginning settings found.value) none usage.cancelling
    let ending := performance.result.map verdict
    { code := ending.map Prod.fst
      output := performance.output
      screen := visible invocation.logLevel (found.events.map .report ++ performance.screen)
        ++ (ending.map Prod.snd).getD []
      disk := performance.disk
      format }

/-- The use that is made of the program as the server of this one. Nothing is put into it. -/
def Usage.wrapped (usage : Usage) (arguments : List Bytes) (disk : Disk) : Usage :=
  { usage with
    arguments, disk
    input := []
    inputEnds := true
    cancelling := .never
    fresh := usage.fresh ++ "+" }

/-- What a use of the program leaves behind. -/
def Conclusion.aftermath (conclusion : Conclusion) (moment : String) : Aftermath where
  disk := conclusion.disk
  errors := conclusion.screen.flatMap (written conclusion.format moment)
  code := conclusion.code

/-- Use the program, wrapped around itself at most so often. -/
def Usage.runWithin (depth : Nat) (usage : Usage) : Conclusion :=
  match CommandLine.read usage.environment usage.arguments with
  | .error refusal =>
    { code := some refusal.code, output := Text.Utf8.ofString refusal.output, disk := usage.disk
      refusal := some refusal }
  | .ok invocation =>
    let again := match depth with
      | 0 => fun _ => none
      | depth + 1 => fun arguments => some (.use fun disk =>
        ((usage.wrapped arguments disk).runWithin depth).aftermath usage.moment)
    usage.runWith again invocation

/-- How often the program is wrapped around itself at most. -/
def depthLimit : Nat := 8

/-- Use the program. -/
def Usage.run (usage : Usage) : Conclusion := usage.runWithin depthLimit

end LspProxy.Rehearsal
