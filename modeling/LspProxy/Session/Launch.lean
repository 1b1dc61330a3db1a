import LspProxy.Disk.Basic
import LspProxy.Session.State

/-!
# Starting the server

A program whose name holds a slash is looked for at that path, any other in a list of folders. It has
to be a file that may be executed. A folder without the program is passed over, and so is one where
execution is refused, but then the refusal is what is reported.

A session that cannot be started leaves nothing behind: what was prepared for the connection is given
up again.
-/
namespace LspProxy.Session

/-- Why the file at a path cannot be executed, if it cannot. -/
def executionFailure? (disk : Disk) (path : Path) : Option Failure :=
  match disk.locate true path with
  | .error failure => some failure
  | .ok (.vacant _ _ _) => some (.system ErrorNumber.noEntry)
  | .ok (.leaf _ _ (.file _ true)) => none
  | .ok (.leaf _ _ (.link _)) => some (.system ErrorNumber.linkLoop)
  | .ok _ => some (.system ErrorNumber.accessDenied)

/-- Why a program is in none of the folders, if it is not, `refused` being whether execution has been
refused before. -/
def searchFailure? (disk : Disk) (program : Path) (refused : Bool) : List Path → Option Failure
  | [] => some (.system (if refused then ErrorNumber.accessDenied else ErrorNumber.noEntry))
  | folder :: folders =>
    match executionFailure? disk (folder.join program) with
    | none => none
    | some failure =>
      match failure.cause with
      | .permissionDenied => searchFailure? disk program true folders
      | .notFound | .notADirectory => searchFailure? disk program refused folders
      | _ => some failure

/-- Why a program cannot be started, if it cannot. -/
def launchFailure? (disk : Disk) (folders : List Path) (program : Path) (arguments : List Bytes) :
    Option Failure :=
  if (program :: arguments).any (·.any (· = 0)) then some .nulInArgument
  else if program = [] then some (.system ErrorNumber.noEntry)
  else if program.any (· = Path.slash) then executionFailure? disk program
  else if Disk.nameLimit < program.length then some (.system ErrorNumber.nameTooLong)
  else searchFailure? disk program false folders

/-- What a session is started with. -/
structure Beginning where
  settings : Settings
  workspace : Workspace
  probe : Parent.Probe
  disk : Disk
  /-- The folders in which programs are looked for. -/
  programFolders : List Path
  /-- The number that the server's process will get. -/
  process : Nat
  client : Pipe
  clientOutput : Sink := {}
  clientErrors : Sink := {}

/-- The most bytes that a pipe holds. -/
def pipeCapacity : Nat := 65536

/-- The most bytes that a connection to a channel holds in one direction. -/
def channelCapacity : Nat := 212992

/-- A session whose server has just been started. -/
def Beginning.state (beginning : Beginning) (prepared : Channel.Prepared) (disk : Disk) : State :=
  let capacity := if prepared.pipesStreams then pipeCapacity else channelCapacity
  { beginning with
    disk
    toServer := { capacity }
    fromServer := { capacity }
    errors := { capacity := pipeCapacity }
    prepared := some prepared
    monitor := match beginning.settings.parentInterval with
      | some interval => .fresh interval
      | none => .absent }

/-- Start a session: prepare the connection, and start the server. -/
def start (beginning : Beginning) : Log.Logged (Except Fault State × Disk) := do
  let settings := beginning.settings
  match ← Channel.prepare beginning.disk settings.endpoint with
  | (.error fault, disk) => return (.error (.transport fault), disk)
  | (.ok prepared, disk) =>
    match launchFailure? disk beginning.programFolders settings.program settings.serverArguments with
    | some failure =>
      let disk ← prepared.release disk
      return (.error (.launch settings.program failure), disk)
    | none =>
      Log.report .info "server started"
        [("program", .shown settings.program.display), ("pid", .number beginning.process),
         ("endpoint", .shown settings.endpoint.display)]
      return (.ok (beginning.state prepared disk), disk)

end LspProxy.Session
