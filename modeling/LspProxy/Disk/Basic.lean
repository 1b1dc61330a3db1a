import LspProxy.Disk.Walk

/-!
# The file system

A file system is a tree of folders, a working folder, the number that the next socket gets and the
permissions of those sockets that have been given others than usual. A working folder may have been
removed while it was in use: its path is then unknown and nothing can be put into it, yet it is still
a folder and has one above it.

Every operation follows its path first. A path that is empty, holds a NUL or is too long leads
nowhere.
-/
namespace LspProxy

/-- A file system as one program sees it. -/
structure Disk where
  root : Folder := .empty
  /-- The names on the way to the working folder. -/
  working : List Bytes := []
  /-- The working folder was removed; the names lead to the one that it was in. -/
  removed : Bool := false
  /-- The number of the next socket. -/
  nextSocket : Nat := 0
  /-- Permissions that sockets have been given, by their numbers, the last ones first. -/
  modes : List (Nat × Nat) := []

namespace Disk

/-- The place of the folder reached by these names. -/
def placeOf (place : Place) : List Bytes → Place
  | [] => place
  | name :: names =>
    match place.folder.find? name with
    | some (.folder _ inner) => placeOf (place.enter name inner) names
    | _ => place

/-- Where relative paths start. A removed folder has a name that no entry has. -/
def workingPlace (disk : Disk) : Place :=
  let place := placeOf ⟨disk.root, []⟩ disk.working
  if disk.removed then place.enter [] .empty else place

/-- Where a path leads. -/
def locate (disk : Disk) (follow : Bool) (path : Path) : Except Failure Target :=
  if path.any (· = 0) then .error Failure.nulInPath
  else if path = [] then .error (.system ErrorNumber.noEntry)
  else if pathBound ≤ path.length then .error (.system ErrorNumber.nameTooLong)
  else
    walk follow linkLimit (if path.isAbsolute then ⟨disk.root, []⟩ else disk.workingPlace) true
      path.names

/-! ## Looking -/

/-- The path leads to a folder. -/
def isFolder (disk : Disk) (path : Path) : Bool :=
  match disk.locate true path with
  | .ok (.folder _ _) => true
  | _ => false

/-- Something is at the path, be it a link that leads nowhere. -/
def exists? (disk : Disk) (path : Path) : Bool :=
  match disk.locate false path with
  | .ok (.folder _ _) | .ok (.leaf _ _ _) => true
  | _ => false

/-- The content of the file at a path. -/
def read (disk : Disk) (path : Path) : Except Failure Bytes :=
  match disk.locate true path with
  | .error failure => .error failure
  | .ok (.folder _ _) => .error (.system ErrorNumber.isDirectory)
  | .ok (.vacant _ _ _) => .error (.system ErrorNumber.noEntry)
  | .ok (.leaf _ _ leaf) =>
    match leaf with
    | .file content _ => .ok content
    | .link _ => .error (.system ErrorNumber.linkLoop)
    | .socket _ => .error (.system ErrorNumber.noDevice)
    | .device _ => .ok []

/-- The content of a path that leads to a file, and not to a device or a folder. -/
def regular? (disk : Disk) (path : Path) : Option Bytes :=
  match disk.locate true path with
  | .ok (.leaf _ _ (.file content _)) => some content
  | _ => none

/-- The folder at a path, for listing. -/
def openFolder (disk : Disk) (path : Path) : Except Failure Folder :=
  match disk.locate true path with
  | .error failure => .error failure
  | .ok (.folder place true) => .ok place.folder
  | .ok (.folder _ false) => .error (.system ErrorNumber.accessDenied)
  | .ok (.vacant _ _ _) => .error (.system ErrorNumber.noEntry)
  | .ok (.leaf _ _ _) => .error (.system ErrorNumber.notDirectory)

/-- The permissions of a new socket. -/
def usualMode : Nat := 0o755

/-- The permissions of the socket with a number. -/
def mode (disk : Disk) (socket : Nat) : Nat :=
  ((disk.modes.find? (·.1 = socket)).map Prod.snd).getD usualMode

/-- The path of the working folder. -/
def workingPath (disk : Disk) : Except Failure Path :=
  if disk.removed then .error (.system ErrorNumber.noEntry)
  else if disk.working = [] then .ok [Path.slash]
  else .ok (Path.ofComponents disk.working)

/-- The path made absolute. The place above is not resolved, since links may stand before it; two
slashes at the start and one at the end are kept, since they may matter. -/
def absolute (disk : Disk) (path : Path) : Except Failure Path := do
  let start ←
    if ¬ path.isAbsolute then disk.workingPath
    else if path.takeWhile (· = Path.slash) = [Path.slash, Path.slash] then
      pure [Path.slash, Path.slash]
    else pure [Path.slash]
  let whole := path.components.foldl Path.join start
  return if path.getLast? = some Path.slash then Path.join whole [] else whole

/-! ## Changing -/

/-- Change the folder at a place. It may have been removed. -/
def change (disk : Disk) (place : Place) (edit : Folder → Folder) : Except Failure Disk :=
  match disk.root.modify? edit place.location with
  | some root => .ok { disk with root }
  | none => .error (.system ErrorNumber.noEntry)

/-- Make a folder. -/
def makeFolder (disk : Disk) (path : Path) : Except Failure Disk :=
  match disk.locate false path with
  | .error failure => .error failure
  | .ok (.vacant place name _) => disk.change place (·.put name (.folder true .empty))
  | .ok _ => .error (.system ErrorNumber.fileExists)

/-- Make the first of these paths a folder, the others being its ancestors in order. What was made
before a failure stays. -/
def makeFolders (disk : Disk) : List Path → Except Failure Unit × Disk
  | [] => (.ok (), disk)
  | path :: above =>
    match disk.makeFolder path with
    | .ok disk => (.ok (), disk)
    | .error failure =>
      if failure.cause = .notFound then
        match disk.makeFolders above with
        | (.error failure, disk) => (.error failure, disk)
        | (.ok (), disk) =>
          match disk.makeFolder path with
          | .ok disk => (.ok (), disk)
          | .error failure => (if disk.isFolder path then .ok () else .error failure, disk)
      else (if disk.isFolder path then .ok () else .error failure, disk)

/-- Make a path a folder together with all of its ancestors. -/
def ensureFolder (disk : Disk) (path : Path) : Except Failure Unit × Disk :=
  disk.makeFolders path.ancestors

/-- Make a folder of all that a path is in. -/
def ensureParent (disk : Disk) (path : Path) : Except Failure Unit × Disk :=
  disk.makeFolders path.ancestors.tail

/-- Where writing to a path leads to: an entry that is there, or a new file. -/
inductive Opened where
  | file (place : Place) (name : Bytes) (content : Bytes) (executable : Bool)
  | device (device : Device)

/-- Open a file for writing, and make it if it is not there. A link that leads nowhere makes the file
where it leads. -/
def openFile (disk : Disk) (path : Path) : Except Failure (Opened × Disk) :=
  match disk.locate true path with
  | .error failure => .error failure
  | .ok (.folder _ _) => .error (.system ErrorNumber.isDirectory)
  | .ok (.vacant _ _ true) => .error (.system ErrorNumber.isDirectory)
  | .ok (.vacant place name false) => do
    let disk ← disk.change place (·.put name (.leaf (.file [] false)))
    return (.file place name [] false, disk)
  | .ok (.leaf place name leaf) =>
    match leaf with
    | .file content executable => .ok (.file place name content executable, disk)
    | .link _ => .error (.system ErrorNumber.linkLoop)
    | .socket _ => .error (.system ErrorNumber.noDevice)
    | .device device => .ok (.device device, disk)

/-- Add bytes at the end of the file at a path. -/
def append (disk : Disk) (path : Path) (bytes : Bytes) : Except Failure Disk := do
  match ← disk.openFile path with
  | (.file place name content executable, disk) =>
    disk.change place (·.put name (.leaf (.file (content ++ bytes) executable)))
  | (.device .void, disk) => return disk
  | (.device .full, disk) =>
    if bytes.isEmpty then return disk else .error (.system ErrorNumber.noSpace)

/-- A link is at the path but for the slashes at its end. Looking at the whole path follows the link; making
something there does not, and finds that its place is taken. -/
def linkTakes (disk : Disk) (path : Path) : Bool :=
  if path.getLast? = some Path.slash ∧ path.length < pathBound then
    match disk.locate false (path.reverse.dropWhile (· = Path.slash)).reverse with
    | .ok (.leaf _ _ (.link _)) => true
    | _ => false
  else false

/-- Why nothing can be made at a path at which looking has failed. -/
def obstacle (disk : Disk) (path : Path) (failure : Failure) : Failure :=
  if disk.linkTakes path then .system ErrorNumber.fileExists else failure

/-- Put a leaf at a path where nothing is yet. -/
def place (disk : Disk) (path : Path) (leaf : Leaf) : Except Failure Disk :=
  match disk.locate false path with
  | .error failure => .error (disk.obstacle path failure)
  | .ok (.vacant place name false) => disk.change place (·.put name (.leaf leaf))
  | .ok (.vacant _ _ true) => .error (disk.obstacle path (.system ErrorNumber.noEntry))
  | .ok _ => .error (.system ErrorNumber.fileExists)

/-- Give the socket that a path leads to these permissions. Those of other entries make no difference to
anything. -/
def setMode (disk : Disk) (path : Path) (mode : Nat) : Except Failure Disk :=
  match disk.locate true path with
  | .error failure => .error failure
  | .ok (.vacant _ _ _) => .error (.system ErrorNumber.noEntry)
  | .ok (.leaf _ _ (.socket socket)) => .ok { disk with modes := (socket, mode) :: disk.modes }
  | .ok _ => .ok disk

/-- Remove the leaf at a path. A link is removed itself. -/
def remove (disk : Disk) (path : Path) : Except Failure Disk :=
  match disk.locate false path with
  | .error failure => .error failure
  | .ok (.folder _ _) => .error (.system ErrorNumber.isDirectory)
  | .ok (.vacant _ _ _) => .error (.system ErrorNumber.noEntry)
  | .ok (.leaf place name _) => disk.change place (·.erase name)

end Disk

end LspProxy
