import LspProxy.Channel.Endpoint
import LspProxy.Rehearsal.Script

/-!
# The stage

The stage is the file system that a rehearsal starts with: the programs that can be rehearsed, the
devices, a folder for temporary files, and a working folder. More is put into it as each rehearsal
needs.
-/
namespace LspProxy.Rehearsal

/-- The folders in which programs are looked for, in order. -/
def searchFolders : List Path :=
  ["/usr/local/sbin", "/usr/local/bin", "/usr/sbin", "/usr/bin", "/sbin", "/bin"].map Bytes.ascii

/-- The folder that holds the programs. -/
def homeOfPrograms : Path := Bytes.ascii "/usr/bin"

/-- The path under which each program finds itself. -/
def ownProgram : Path := Bytes.ascii "/proc/self/exe"

/-- The devices. -/
def devices : List (String × Device) := [("/dev/null", .void), ("/dev/full", .full)]

/-- A leaf put at a path, with the folders it is in. What was there before is replaced. -/
def put (disk : Disk) (path : Path) (leaf : Leaf) : Except Failure Disk :=
  match disk.ensureParent path with
  | (.error failure, _) => .error failure
  | (.ok (), disk) => ((disk.remove path).toOption.getD disk).place path leaf

/-- A new folder and those it is in. -/
def putFolder (disk : Disk) (path : Path) : Except Failure Disk :=
  match disk.ensureFolder path with
  | (.error failure, _) => .error failure
  | (.ok (), disk) => .ok disk

/-- A leftover socket at a path. -/
def putSocket (disk : Disk) (path : Path) : Except Failure Disk := do
  let placed ← put disk path (.socket disk.nextSocket)
  return { placed with nextSocket := disk.nextSocket + 1 }

/-- The file system with a working folder, which is made. -/
def stage (working : Path) : Except Failure Disk := do
  let disk ← (working :: Channel.temporaryFolder :: searchFolders).foldlM putFolder {}
  let disk ← programs.foldlM (fun disk name =>
    put disk (homeOfPrograms.join (Bytes.ascii name)) (.file [] true)) disk
  let disk ← put disk ownProgram (.file [] true)
  let disk ← devices.foldlM (fun disk (path, device) =>
    put disk (Bytes.ascii path) (.device device)) disk
  return { disk with working := working.components }

end LspProxy.Rehearsal
