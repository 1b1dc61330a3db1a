import LspProxy.Disk.Basic
import LspProxy.Log.Event
import LspProxy.Uri.FilePath
import LspProxy.Workspace.Basic

/-!
# Finding a workspace

The solution is looked for in the root folder alone, the projects in it and in all folders below it.
These are gone through with a stack of folders that are yet to be listed. Links are neither followed nor
taken for files. A folder that cannot be listed is passed over, and so is one whose path is too long.
What is found is put in the order of paths, so the order in which a file system lists its entries does
not matter.
-/
namespace LspProxy.Workspace

/-- The extension of project files. -/
def projectExtension : Bytes := Bytes.ascii "csproj"

/-- The extensions of solution files, the preferred one first. -/
def solutionExtensions : List Bytes := [Bytes.ascii "slnx", Bytes.ascii "sln"]

/-- The lower case of an ASCII letter. -/
def lowerByte (b : UInt8) : UInt8 := if 0x41 ≤ b ∧ b ≤ 0x5A then b + 0x20 else b

/-- The path has the extension, whatever the case of its letters. -/
def hasExtension (extension : Bytes) (path : Path) : Bool :=
  path.extension?.any fun found => found.map lowerByte = extension

/-! ## Listing -/

/-- The report about a folder that cannot be listed. -/
def closedEvent (path : Path) (failure : Failure) : Log.Event :=
  ⟨.debug, "skipping unreadable directory",
    [("dir", .shown path.quoted), ("error", .shown failure.message)]⟩

/-- Why a folder below the root cannot be listed, if it cannot. -/
def obstacle? (path : Path) (listable : Bool) : Option Failure :=
  if Disk.pathBound ≤ path.length then some (.system ErrorNumber.nameTooLong)
  else if listable then none
  else some (.system ErrorNumber.accessDenied)

/-- A folder that is yet to be listed. -/
structure Pending where
  path : Path
  listable : Bool
  inner : Folder
  deriving Repr, DecidableEq

/-- The files directly in a folder. -/
def filesIn (path : Path) : Folder → List Path
  | .empty => []
  | .leaf name (.file _ _) others => path.join name :: filesIn path others
  | .leaf _ _ others | .folder _ _ _ others => filesIn path others

/-- The folders directly in a folder. -/
def foldersIn (path : Path) : Folder → List Pending
  | .empty => []
  | .leaf _ _ others => foldersIn path others
  | .folder name listable inner others => ⟨path.join name, listable, inner⟩ :: foldersIn path others

/-- The files and folders directly in a pending folder, or only a report if it cannot be listed. -/
def Pending.list (pending : Pending) : Log.Logged (List Path × List Pending) :=
  match obstacle? pending.path pending.listable with
  | some failure => ⟨([], []), [closedEvent pending.path failure]⟩
  | none => ⟨(filesIn pending.path pending.inner, foldersIn pending.path pending.inner), []⟩

/-! ## Going through all folders -/

/-- The number of folders below a folder. -/
def folderCount : Folder → Nat
  | .empty => 0
  | .leaf _ _ others => folderCount others
  | .folder _ _ inner others => 1 + folderCount inner + folderCount others

/-- The number of folders in and below those that are pending. -/
def pendingCount : List Pending → Nat
  | [] => 0
  | first :: others => 1 + folderCount first.inner + pendingCount others

theorem pendingCount_append (first second : List Pending) :
    pendingCount (first ++ second) = pendingCount first + pendingCount second := by
  induction first with
  | nil => simp [pendingCount]
  | cons pending others inductionHypothesis =>
    simp only [List.cons_append, pendingCount, inductionHypothesis]
    omega

theorem pendingCount_reverse (pending : List Pending) :
    pendingCount pending.reverse = pendingCount pending := by
  induction pending with
  | nil => rfl
  | cons first others inductionHypothesis =>
    simp only [List.reverse_cons, pendingCount_append, inductionHypothesis, pendingCount]
    omega

theorem pendingCount_foldersIn (path : Path) (folder : Folder) :
    pendingCount (foldersIn path folder) = folderCount folder := by
  induction folder with
  | empty => rfl
  | leaf name leaf others inductionHypothesis => exact inductionHypothesis
  | folder name listable inner others _ inductionHypothesis =>
    simp only [foldersIn, pendingCount, folderCount, inductionHypothesis]

/-- Listing a folder leaves fewer folders to be listed. -/
theorem pendingCount_list (pending : Pending) :
    pendingCount pending.list.value.2 < 1 + folderCount pending.inner := by
  unfold Pending.list
  split
  · simp only [pendingCount]
    omega
  · simp only [pendingCount_foldersIn]
    omega

/-- The project files in the pending folders and in all folders below them, after those that have been
found. The folder that was found last is listed next. -/
def collect (found : List Path) (pending : List Pending) : Log.Logged (List Path) :=
  match pending with
  | [] => return found
  | last :: others =>
    let listed := last.list
    let whole := collect (found ++ listed.value.1.filter (hasExtension projectExtension))
      (listed.value.2.reverse ++ others)
    { whole with events := listed.events ++ whole.events }
termination_by pendingCount pending
decreasing_by
  simp only [pendingCount_append, pendingCount_reverse, pendingCount]
  have fewer := pendingCount_list last
  omega

/-! ## Choosing -/

/-- Paths in order. -/
def sorted (paths : List Path) : List Path := paths.mergeSort Path.precedes

/-- The first of the files that has the preferred extension, or else the other. -/
def chooseSolution? (files : List Path) : Option Path :=
  solutionExtensions.findSome? fun extension => (sorted (files.filter (hasExtension extension))).head?

/-- What is found from a root folder on: its own files, and the project files in it and below it. The root
is listed for either. -/
def survey (disk : Disk) (root : Path) : Log.Logged (List Path × List Path) :=
  match disk.openFolder root with
  | .error failure => ⟨([], []), [closedEvent root failure, closedEvent root failure]⟩
  | .ok folder => do return (filesIn root folder, ← collect [] [⟨root, true, folder⟩])

/-- The workspace under a root. -/
def discover (disk : Disk) (root : Path) : Log.Logged Workspace :=
  if root = [] ∨ ¬ disk.isFolder root then do
    Log.report .debug "project root not found; workspace is empty" [("root", .shown root.quoted)]
    return {}
  else
    match disk.absolute root with
    | .error failure => do
      Log.report .debug "cannot resolve project root"
        [("root", .shown root.quoted), ("error", .shown failure.message)]
      return {}
    | .ok root => do
      let (own, projects) ← survey disk root
      let workspace : Workspace :=
        { solution := ((chooseSolution? own).map Uri.ofPath).getD ""
          projects := (sorted projects).map Uri.ofPath }
      Log.report .debug "discovered workspace"
        [("solution", .shown workspace.solution), ("projects", .number workspace.projects.length)]
      return workspace

end LspProxy.Workspace
