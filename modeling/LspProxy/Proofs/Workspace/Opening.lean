import LspProxy.Proofs.Uri.RoundTrip
import LspProxy.Proofs.Workspace.Discovery

/-!
# Where the URIs of a workspace lead

A URI is made of the path under which a file was found, and the path keeps the names for the place above that
the root was given with. Whoever reads the URI has climbed by the text alone before any file is looked for
(`Message.documentPath_ofPath`), while the file was found by following the same names in the tree. What is
below the root adds no such names (`Below.components`). So every URI leads back to the very file that was
found, if the root climbs out of folders alone, and not out of links, and no name could be a drive
(`workspace_reopened`). A root that does not climb is of this kind, be it reached through links or not.

Behind a link that is climbed out of, the URI leads to another file, or to none (`climbing_root_misread`).
-/
namespace LspProxy

namespace Path

variable {path : Path} {name : Bytes}

/-- A path is made of the bytes of its names and of slashes. -/
theorem mem_of_mem_names {b : UInt8} (named : name ∈ path.names) (among : b ∈ name) : b ∈ path := by
  induction path generalizing name with
  | nil =>
    obtain rfl := List.mem_singleton.mp named
    exact among
  | cons first rest inductionHypothesis =>
    unfold names Text.fields at named
    unfold names at inductionHypothesis
    split at named
    · rcases List.mem_cons.mp named with rfl | named
      · exact absurd among List.not_mem_nil
      · exact List.mem_cons_of_mem _ (inductionHypothesis named among)
    · rename_i cut
      exact absurd cut (Text.fields_ne_nil _ rest)
    · rename_i field others plain cut
      rw [cut] at inductionHypothesis
      rcases List.mem_cons.mp named with rfl | named
      · rcases List.mem_cons.mp among with rfl | among
        · exact List.mem_cons_self
        · exact List.mem_cons_of_mem _ (inductionHypothesis List.mem_cons_self among)
      · exact List.mem_cons_of_mem _ (inductionHypothesis (List.mem_cons_of_mem _ named) among)

/-- The last name of a path made of names ends the path. -/
theorem getLast?_ofComponents (above : List Bytes) (given : name ≠ []) :
    (ofComponents (above ++ [name])).getLast? = name.getLast? := by
  have written : ofComponents (above ++ [name]) = (ofComponents above ++ [slash]) ++ name := by
    simp [ofComponents]
  rw [written, List.getLast?_append_of_ne_nil _ given]

end Path

/-- A path that does not end in the mark of a drive is not closed. -/
theorem Uri.closeDrive_eq_self {path : Path} (colon : path.getLast? ≠ some 0x3A)
    (bar : path.getLast? ≠ some 0x7C) : Uri.closeDrive path = path := by
  unfold Uri.closeDrive
  split
  · rename_i mark letter first rest ends
    have last : path.getLast? = some mark := by rw [← List.head?_reverse, ends]; rfl
    rw [last, ne_eq, Option.some.injEq] at colon bar
    rw [if_neg fun drive => drive.1.elim colon bar]
  · rfl

namespace Workspace

variable {disk : Disk} {root whole path above : Path} {place : Disk.Place} {name content : Bytes}
  {executable : Bool}

/-! ## Files by the places of their folders -/

/-- This file has been found under the path: it is in the folder at this place, which is one below the root
and is where the rest of the path leads. -/
structure FoundAt (disk : Disk) (root path : Path) (place : Disk.Place) (name : Bytes) (file : Leaf) :
    Prop where
  folder : ∃ above, Below disk root above place.folder ∧ disk.locate true above = .ok (.folder place true) ∧
    path = above.join name
  met : place.folder.find? name = some (.leaf file)
  isFile : ∃ content executable, file = .file content executable

/-- The URI, read back as that of a document, is a path that leads to this file, unless it is too long for a
path. -/
def Reopens (disk : Disk) (uri : String) (place : Disk.Place) (name : Bytes) (file : Leaf) : Prop :=
  ∃ path, Message.documentPath uri = .ok path ∧
    disk.locate true path =
      if Disk.pathBound ≤ path.length then .error (.system ErrorNumber.nameTooLong)
      else .ok (.leaf place name file)

/-- No name of a path that climbs could be a drive. -/
def Undriven (path : Path) : Prop :=
  Path.parent ∈ path.components → ∀ name ∈ path.components, ¬ Uri.NamesDrive name

theorem Below.absolute {folder : Folder} (below : Below disk root path folder)
    (absolute : root.isAbsolute = true) : path.isAbsolute = true := by
  induction below with
  | root opened => exact absolute
  | inner _ _ _ inductionHypothesis => exact Disk.isAbsolute_join_left inductionHypothesis _

/-- The path of a folder below the root climbs no further than the root's. -/
theorem Below.components {folder : Folder} (below : Below disk root path folder)
    (named : disk.root.WellNamed) (absolute : root.isAbsolute = true) :
    ∃ deeper, path.components = root.components ++ deeper ∧ Path.parent ∉ deeper := by
  induction below with
  | root opened => exact ⟨[], (List.append_nil _).symm, List.not_mem_nil⟩
  | @inner path name listable folder inner reached above met opened inductionHypothesis =>
    obtain ⟨deeper, same, level⟩ := inductionHypothesis
    have isName := (above.wellNamed named absolute).isName met
    refine ⟨deeper ++ [name], ?_, ?_⟩
    · rw [Path.components_join isName above.given, same, List.append_assoc]
    · rw [List.mem_append, List.mem_singleton]
      exact not_or.mpr ⟨level, isName.notParent.symm⟩

/-- The components of the path of a folder, and a name in it, lead to what has the name. -/
theorem walk_components_join {single : Leaf} (absolute : above.isAbsolute = true)
    (located : disk.locate true above = .ok (.folder place true)) (isName : Path.IsName name)
    (found : place.folder.find? name = some (.leaf single)) (notLink : ∀ target, single ≠ .link target) :
    Disk.walk true Disk.linkLimit ⟨disk.root, []⟩ true (above.components ++ [name]) =
      .ok (.leaf place name single) := by
  have walked := (Disk.locate_eq_walk located disk).symm.trans located
  rw [if_pos absolute] at walked
  have counted := Disk.walk_components walked
  rw [← List.append_nil (List.filter _ _)] at counted
  obtain ⟨left, goes⟩ := Disk.walk_through rfl counted
  refine (goes [name]).trans ?_
  have ends : Disk.Ending (place.folder.find? name) := by
    rw [found]
    cases single with
    | link target => exact absurd rfl (notLink target)
    | file content executable => exact trivial
    | socket identity => exact trivial
    | device device => exact trivial
  rw [Disk.walk_last (not_or.mpr ⟨isName.nonempty, isName.notCurrent⟩) isName.notParent
    (Nat.not_lt.mpr isName.short) ends, Disk.Place.settle, found]

/-- Names without a NUL, of which the first ones climb without a link, make a path that leads where they lead,
written as what the text leaves of them. -/
theorem locate_ofComponents {names : List Bytes} {target : Disk.Target} (given : names ≠ [])
    (counts : ∀ name ∈ names, Path.slash ∉ name ∧ 0 ∉ name)
    (walked : Disk.walk true Disk.linkLimit ⟨disk.root, []⟩ true names = .ok target) :
    disk.locate true (Path.ofComponents names) =
      if Disk.pathBound ≤ (Path.ofComponents names).length then .error (.system ErrorNumber.nameTooLong)
      else .ok target := by
  have plain : ¬ (Path.ofComponents names).any (· = 0) = true := by
    rw [List.any_eq_true]
    rintro ⟨b, among, zero⟩
    obtain ⟨name, named, among⟩ := List.mem_flatMap.mp among
    rcases List.mem_cons.mp among with rfl | among
    · exact absurd zero (by decide)
    · exact (counts name named).2 (of_decide_eq_true zero ▸ among)
  obtain ⟨first, others, rfl⟩ := List.exists_cons_of_ne_nil given
  have rooted : (Path.ofComponents (first :: others)).isAbsolute = true := rfl
  have walked' : Disk.walk true Disk.linkLimit ⟨disk.root, []⟩ true
      (Path.ofComponents (first :: others)).names = .ok target := by
    rw [Path.names_ofComponents fun name among => (counts name among).1, Disk.walk, if_pos (.inl rfl), walked]
  unfold Disk.locate
  rw [if_neg plain, if_neg (by rintro ⟨⟩), rooted, if_pos rfl, walked']

/-- A file found below a root that climbs without a link is found again by its URI. -/
theorem FoundAt.reopens {file : Leaf} (found : FoundAt disk root path place name file)
    (named : disk.root.WellNamed) (absolute : root.isAbsolute = true)
    (climbs : Disk.ClimbsOutOfFolders disk.root root.components) (undriven : Undriven path)
    (colon : name.getLast? ≠ some 0x3A) (bar : name.getLast? ≠ some 0x7C) :
    Reopens disk (Uri.ofPath path) place name file := by
  obtain ⟨⟨above, below, located, rfl⟩, met, content, executable, rfl⟩ := found
  obtain ⟨deeper, same, level⟩ := below.components named absolute
  have isName := (below.wellNamed named absolute).isName met
  have components : (above.join name).components = root.components ++ (deeper ++ [name]) := by
    rw [Path.components_join isName below.given, same, List.append_assoc]
  have level : Path.parent ∉ deeper ++ [name] := by
    rw [List.mem_append, List.mem_singleton]
    exact not_or.mpr ⟨level, isName.notParent.symm⟩
  have collapsed : Path.collapse (above.join name).components =
      Path.collapse root.components ++ deeper ++ [name] := by
    rw [components, Path.collapse_append level, List.append_assoc]
  have counts : ∀ name' ∈ (above.join name).components, Path.Counts name' := fun name' among =>
    ⟨(Path.mem_components among).1, (Path.mem_components among).2.1⟩
  have remaining : Path.remaining (above.join name).components = Path.collapse (above.join name).components :=
    if_neg (by rw [collapsed]; exact List.append_ne_nil_of_right_ne_nil _ (by simp))
  have ends : (above.join name).components.getLast? ≠ some Path.parent := by
    rw [Path.components_join isName below.given, List.getLast?_concat]
    exact fun last => isName.notParent (Option.some.inj last)
  have walked : Disk.walk true Disk.linkLimit ⟨disk.root, []⟩ true
      (Path.collapse (above.join name).components) = .ok (.leaf place name (.file content executable)) := by
    have found := walk_components_join (below.absolute absolute) located isName met nofun
    rw [← Path.components_join isName below.given, ← List.append_nil (Path.components _)] at found
    have left := Disk.walk_collapse (components ▸ climbs.append level) counts found
    rwa [List.append_nil] at left
  have plain : ∀ name' ∈ Path.collapse (above.join name).components, Path.slash ∉ name' ∧ 0 ∉ name' := by
    intro name' among
    have among := Path.mem_of_mem_collapse among
    refine ⟨(Path.mem_components among).2.2, fun zero => ?_⟩
    have inside := Path.mem_of_mem_names (List.mem_filter.mp among).1 zero
    have nul : (above.join name).any (· = 0) = true := List.any_eq_true.mpr ⟨0, inside, rfl⟩
    rw [Path.any_join isName below.given] at nul
    exact (Disk.locate_eq_ok located).1 nul
  have open_ : Uri.closeDrive (Path.ofComponents (Path.collapse (above.join name).components)) =
      Path.ofComponents (Path.collapse (above.join name).components) := by
    have last := Path.getLast?_ofComponents (Path.collapse root.components ++ deeper) isName.nonempty
    rw [collapsed]
    exact Uri.closeDrive_eq_self (last ▸ colon) (last ▸ bar)
  refine ⟨_, Message.documentPath_ofPath ends undriven, ?_⟩
  rw [remaining, open_]
  exact locate_ofComponents (by rw [collapsed]; simp) plain walked

/-! ## The URIs of a workspace -/

/-- A name with an extension does not end in the mark of a drive, if the extension does not. -/
theorem EndsIn.getLast?_ne {extension : Bytes} {mark : UInt8} (ends : EndsIn extension name)
    (given : extension ≠ []) (other : extension.getLast? ≠ some (lowerByte mark)) :
    name.getLast? ≠ some mark := by
  obtain ⟨stem, found, rfl, _, _, rfl⟩ := ends
  have found_ne : found ≠ [] := fun empty => given (by rw [empty]; rfl)
  intro last
  rw [List.getLast?_append_of_ne_nil _ (by simp), List.getLast?_cons_of_ne_nil found_ne] at last
  rw [List.getLast?_map, last] at other
  exact other rfl

/-- A file with one of the extensions has been found under the path. -/
def FoundUnder (disk : Disk) (root path : Path) (place : Disk.Place) (name : Bytes) (file : Leaf) : Prop :=
  FoundAt disk root path place name file ∧
    ∃ extension ∈ projectExtension :: solutionExtensions, EndsIn extension name

theorem foundUnder_of_below {folder : Folder} {extension : Bytes} (below : Below disk root above folder)
    (met : folder.find? name = some (.leaf (.file content executable)))
    (known : extension ∈ projectExtension :: solutionExtensions) (ends : EndsIn extension name) :
    ∃ place, FoundUnder disk root (above.join name) place name (.file content executable) := by
  obtain ⟨place, located, rfl⟩ := Disk.openFolder_eq_ok_iff.mp below.opened
  exact ⟨place, ⟨⟨above, below, located, rfl⟩, met, content, executable, rfl⟩, extension, known, ends⟩

/-- The solution is a file in the root, if there is one. -/
theorem IsSolution.foundUnder {solution : String} {extensions : List Bytes}
    (isSolution : IsSolution disk root solution extensions)
    (known : ∀ extension ∈ extensions, extension ∈ projectExtension :: solutionExtensions) :
    solution = "" ∨ ∃ path place name file, FoundUnder disk root path place name file ∧
      solution = Uri.ofPath path := by
  induction extensions with
  | nil => exact .inl isSolution
  | cons extension extensions inductionHypothesis =>
    obtain ⟨known, later⟩ := List.forall_mem_cons.mp known
    rcases isSolution with ⟨path, least, rfl⟩ | ⟨_, isSolution⟩
    · obtain ⟨folder, name, content, executable, opened, met, ends, rfl⟩ := least.1
      obtain ⟨place, found⟩ := foundUnder_of_below (.root opened) met known ends
      exact .inr ⟨_, place, name, _, found, rfl⟩
    · exact inductionHypothesis isSolution later

/-- No extension ends in the mark of a drive. -/
theorem FoundUnder.reopens {file : Leaf} (found : FoundUnder disk root path place name file)
    (named : disk.root.WellNamed) (absolute : root.isAbsolute = true)
    (climbs : Disk.ClimbsOutOfFolders disk.root root.components) (undriven : Undriven path) :
    Reopens disk (Uri.ofPath path) place name file := by
  obtain ⟨found, extension, known, ends⟩ := found
  have unmarked : extension ≠ [] ∧ extension.getLast? ≠ some (lowerByte 0x3A) ∧
      extension.getLast? ≠ some (lowerByte 0x7C) := by
    clear ends
    revert extension
    decide
  obtain ⟨given, colon, bar⟩ := unmarked
  exact found.reopens named absolute climbs undriven (ends.getLast?_ne given colon) (ends.getLast?_ne given bar)

/-- Every project and the solution, if there is one, is the URI of a file that has been found. The URI, read
back as the one of a document, leads to this very file, if the root does not climb or climbs out of folders
that its path has entered through no link, and no name of the path could be a drive. -/
theorem workspace_reopened (named : disk.root.WellNamed) (given : root ≠ [])
    (isFolder : disk.isFolder root = true) (made : disk.absolute root = .ok whole) :
    (∀ uri ∈ (discover disk root).value.projects, ∃ path place name file,
      FoundUnder disk whole path place name file ∧ uri = Uri.ofPath path ∧
        (Disk.ClimbsOutOfFolders disk.root whole.components → Undriven path →
          Reopens disk uri place name file)) ∧
    ((discover disk root).value.solution = "" ∨ ∃ path place name file,
      FoundUnder disk whole path place name file ∧ (discover disk root).value.solution = Uri.ofPath path ∧
        (Disk.ClimbsOutOfFolders disk.root whole.components → Undriven path →
          Reopens disk (discover disk root).value.solution place name file)) := by
  have absolute := Disk.isAbsolute_absolute made
  have there := found_survey named absolute
  rw [← discover_something given isFolder made] at there
  constructor
  · intro uri among
    obtain ⟨paths, same, _, members⟩ := there.projects
    rw [same] at among
    obtain ⟨path, project, rfl⟩ := List.mem_map.mp among
    obtain ⟨above, folder, name, content, executable, below, met, ends, rfl⟩ := (members path).mp project
    obtain ⟨place, found⟩ := foundUnder_of_below below met List.mem_cons_self ends
    exact ⟨_, place, name, _, found, rfl, found.reopens named absolute⟩
  · refine (there.solution.foundUnder (by decide)).imp_right ?_
    rintro ⟨path, place, name, file, found, same⟩
    refine ⟨path, place, name, file, found, same, ?_⟩
    rw [same]
    exact found.reopens named absolute

/-- A folder with a project, a folder in it and a link to this one; a file of the project's name is beside the
folder. -/
def linkedRoot : Folder :=
  .folder (Bytes.ascii "a") true
    (.folder (Bytes.ascii "b") true .empty
      (.leaf (Bytes.ascii "x.csproj") (.file (Bytes.ascii "in a") false) .empty))
    (.leaf (Bytes.ascii "l") (.link (Bytes.ascii "a/b"))
      (.leaf (Bytes.ascii "x.csproj") (.file (Bytes.ascii "beside a") false) .empty))

/-- Out of the inner folder the way back to the outer one is the same in the tree and in the text. -/
theorem linkedRoot_climbs : Disk.ClimbsOutOfFolders linkedRoot (Path.components (Bytes.ascii "/a/b/..")) := by
  have components : Path.components (Bytes.ascii "/a/b/..") =
      [Bytes.ascii "a", Bytes.ascii "b", Path.parent] := by
    decide
  rw [components]
  intro before after left name parts collapsed
  obtain rfl : before = [Bytes.ascii "a", Bytes.ascii "b"] := by
    rcases before with _ | ⟨first, _ | ⟨second, _ | ⟨third, later⟩⟩⟩
    · exact absurd (List.cons.inj parts).1 (by decide)
    · exact absurd (List.cons.inj (List.cons.inj parts).2).1 (by decide)
    · obtain ⟨rfl, rest⟩ := List.cons.inj parts
      obtain ⟨rfl, _⟩ := List.cons.inj rest
      rfl
    · exact absurd (congrArg List.length parts) (by simp)
  have collapsed : [Bytes.ascii "a"] ++ [Bytes.ascii "b"] = left ++ [name] := collapsed
  obtain ⟨rfl, same⟩ := List.append_inj' collapsed rfl
  obtain rfl := List.singleton_inj.mp same
  exact ⟨_, _, _, _, by cbv, by cbv⟩

/-- The project is found through the inner folder, and its URI leads to it. -/
theorem climbing_root_reopened :
    linkedRoot.WellNamed ∧ Disk.ClimbsOutOfFolders linkedRoot (Path.components (Bytes.ascii "/a/b/..")) ∧
      (discover { root := linkedRoot } (Bytes.ascii "/a/b/..")).value.projects = ["file:///a/b/../x.csproj"] ∧
      ∃ path place name file,
        FoundUnder { root := linkedRoot } (Bytes.ascii "/a/b/..") path place name file ∧
        Reopens { root := linkedRoot } "file:///a/b/../x.csproj" place name file := by
  have named : linkedRoot.WellNamed := by decide
  have projects : (discover { root := linkedRoot } (Bytes.ascii "/a/b/..")).value.projects =
      ["file:///a/b/../x.csproj"] := by cbv
  have made : Disk.absolute { root := linkedRoot } (Bytes.ascii "/a/b/..") = .ok (Bytes.ascii "/a/b/..") := by
    cbv
  obtain ⟨all, _⟩ := workspace_reopened named (by decide) (by cbv) made
  obtain ⟨path, place, name, file, found, same, reopened⟩ := all "file:///a/b/../x.csproj" (by simp [projects])
  have same : Uri.ofPath (Bytes.ascii "/a/b/../x.csproj") = Uri.ofPath path := same ▸ by cbv
  have undriven : Undriven path := by
    unfold Undriven
    rw [← Uri.ofPath_inj same]
    exact fun _ => by decide +kernel
  exact ⟨named, linkedRoot_climbs, projects, path, place, name, file, found,
    reopened linkedRoot_climbs undriven⟩

/-- The project is found behind the link, which leads to the inner folder. Its URI leads to the file beside the
folder, since the text takes away the link. -/
theorem climbing_root_misread :
    let disk : Disk := { root := linkedRoot }
    disk.root.WellNamed ∧ disk.absolute (Bytes.ascii "/l/..") = .ok (Bytes.ascii "/l/..") ∧
      (discover disk (Bytes.ascii "/l/..")).value.projects = ["file:///l/../x.csproj"] ∧
      Uri.ofPath (Bytes.ascii "/l/../x.csproj") = "file:///l/../x.csproj" ∧
      (∃ place, FoundUnder disk (Bytes.ascii "/l/..") (Bytes.ascii "/l/../x.csproj") place
        (Bytes.ascii "x.csproj") (.file (Bytes.ascii "in a") false) ∧
        ¬ Reopens disk "file:///l/../x.csproj" place (Bytes.ascii "x.csproj")
          (.file (Bytes.ascii "in a") false)) ∧
      Message.documentPath "file:///l/../x.csproj" = .ok (Bytes.ascii "/x.csproj") ∧
      disk.read (Bytes.ascii "/x.csproj") = .ok (Bytes.ascii "beside a") := by
  intro disk
  have named : disk.root.WellNamed := by decide
  have document : Message.documentPath "file:///l/../x.csproj" = .ok (Bytes.ascii "/x.csproj") := by cbv
  have read : disk.read (Bytes.ascii "/x.csproj") = .ok (Bytes.ascii "beside a") := by cbv
  obtain ⟨top, opened, met⟩ : ∃ top, disk.openFolder (Bytes.ascii "/l/..") = .ok top ∧
      top.find? (Bytes.ascii "x.csproj") = some (.leaf (.file (Bytes.ascii "in a") false)) :=
    ⟨_, by cbv, by cbv⟩
  have ends : EndsIn projectExtension (Bytes.ascii "x.csproj") :=
    ⟨Bytes.ascii "x", Bytes.ascii "csproj", by decide, by decide, by decide, by decide⟩
  obtain ⟨place, found⟩ := foundUnder_of_below (.root opened) met List.mem_cons_self ends
  refine ⟨named, by cbv, by cbv, by cbv, ⟨place, found, ?_⟩, document, read⟩
  rintro ⟨path, read_back, leads⟩
  obtain rfl := Except.ok.inj (document.symm.trans read_back)
  rw [if_neg (by decide)] at leads
  unfold Disk.read at read
  rw [leads] at read
  exact absurd (Except.ok.inj read) (by decide)

end Workspace

end LspProxy
