import LspProxy.Proofs.Disk.Extensions
import LspProxy.Proofs.Disk.Relisting
import LspProxy.Proofs.Uri.FilePath
import LspProxy.Proofs.Workspace.Traversal
import Mathlib

/-!
# What a workspace is found to be

A workspace is described here by what can be opened and listed, without saying how it is looked for
(`Found`): its projects are the files below the root whose names end as project files do, in the order of
their components, and its solution is the least of the files in the root itself whose names end as solution
files do, those with the preferred ending before all others. Discovery finds exactly this
(`discovery_exact`).

Such a description leaves only one workspace, since rows that ascend strictly and have the same members are
the same. And it does not mention the order in which folders list their entries, so that order makes no
difference.
-/
namespace LspProxy.Workspace

/-! ## Extensions -/

/-- The name ends with a dot and the extension, in whatever case, behind something else. -/
def EndsIn (extension name : Bytes) : Prop :=
  ∃ stem found : Bytes, name = stem ++ 0x2E :: found ∧ stem ≠ [] ∧ 0x2E ∉ found ∧
    found.map lowerByte = extension

/-- The path of an entry has the extension that the entry's name ends in. -/
theorem hasExtension_join {extension name : Bytes} {path : Path} (isName : Path.IsName name)
    (given : path ≠ []) : hasExtension extension (path.join name) = true ↔ EndsIn extension name := by
  have cut : (path.join name).extension? = (Path.cutName name).2 := by
    unfold Path.extension? Path.fileName?
    rw [Path.components_join isName given, List.getLast?_concat]
    simp [isName.notParent]
  unfold hasExtension EndsIn
  rw [cut, Option.any_eq_true]
  constructor
  · rintro ⟨found, cut, lower⟩
    obtain ⟨stem, parts, given, last⟩ := Path.cutName_extension_iff.mp cut
    exact ⟨stem, found, parts, given, last, of_decide_eq_true lower⟩
  · rintro ⟨stem, found, parts, given, last, lower⟩
    exact ⟨found, Path.cutName_extension_iff.mpr ⟨stem, parts, given, last⟩, decide_eq_true lower⟩

/-! ## The order of paths -/

theorem sorted_perm (paths : List Path) : (sorted paths).Perm paths := List.mergeSort_perm paths _

/-- Sorted paths ascend. -/
theorem sorted_pairwise (paths : List Path) :
    (sorted paths).Pairwise fun first second => first.components ≤ second.components := by
  have trans (first second third : Path) (earlier : first.precedes second = true)
      (later : second.precedes third = true) : first.precedes third = true :=
    decide_eq_true (List.le_trans (of_decide_eq_true earlier) (of_decide_eq_true later))
  have total (first second : Path) : (first.precedes second || second.precedes first) = true := by
    rw [Bool.or_eq_true]
    exact (List.le_total first.components second.components).imp decide_eq_true decide_eq_true
  exact (List.pairwise_mergeSort trans total paths).imp of_decide_eq_true

/-- The least path of a kind. -/
def Least (kind : Path → Prop) (path : Path) : Prop :=
  kind path ∧ ∀ other, kind other → path.components ≤ other.components

/-- The first of the sorted paths is the least of them, if there are any. -/
theorem head?_sorted {paths : List Path} {kind : Path → Prop} (members : ∀ path, path ∈ paths ↔ kind path) :
    match (sorted paths).head? with
    | some path => Least kind path
    | none => ∀ path, ¬ kind path := by
  have members' (path : Path) : path ∈ sorted paths ↔ kind path :=
    (sorted_perm paths).mem_iff.trans (members path)
  have ascending := sorted_pairwise paths
  generalize sorted paths = row at members' ascending
  cases row with
  | nil => exact fun path isKind => List.not_mem_nil ((members' path).mpr isKind)
  | cons first others =>
    refine ⟨(members' first).mp List.mem_cons_self, fun other isKind => ?_⟩
    rcases List.mem_cons.mp ((members' other).mpr isKind) with rfl | among
    · exact List.le_refl _
    · exact List.rel_of_pairwise_cons ascending among

/-! ## What there is to be found -/

/-- A file with the extension of projects in a folder below the root. -/
def ProjectBelow (disk : Disk) (root path : Path) : Prop :=
  ∃ above folder name content executable, Below disk root above folder ∧
    folder.find? name = some (.leaf (.file content executable)) ∧ EndsIn projectExtension name ∧
    path = above.join name

/-- A file with the extension in the root folder. -/
def FileIn (disk : Disk) (root : Path) (extension : Bytes) (path : Path) : Prop :=
  ∃ folder name content executable, disk.openFolder root = .ok folder ∧
    folder.find? name = some (.leaf (.file content executable)) ∧ EndsIn extension name ∧
    path = root.join name

/-- The URI of the least file in the root that has the first of these extensions that any file has, and
nothing if none has any of them. -/
def IsSolution (disk : Disk) (root : Path) (solution : String) : List Bytes → Prop
  | [] => solution = ""
  | extension :: extensions =>
    (∃ path, Least (FileIn disk root extension) path ∧ solution = Uri.ofPath path) ∨
      (∀ path, ¬ FileIn disk root extension path) ∧ IsSolution disk root solution extensions

/-- The workspace that there is under a root. -/
structure Found (disk : Disk) (root : Path) (workspace : Workspace) : Prop where
  /-- The projects are all there are, in strictly ascending order. -/
  projects : ∃ paths : List Path, workspace.projects = paths.map Uri.ofPath ∧
    paths.Pairwise (fun first second => first.components < second.components) ∧
    ∀ path, path ∈ paths ↔ ProjectBelow disk root path
  /-- No project is named twice. -/
  once : workspace.projects.Nodup
  solution : IsSolution disk root workspace.solution [Bytes.ascii "slnx", Bytes.ascii "sln"]

section

variable {disk disk' : Disk} {root path : Path} {folder : Folder} {workspace workspace' : Workspace}

/-! ## Looking for it -/

/-- A file of a listed folder, by its path. -/
def IsFileOf (root : Path) (part : Folder) (path : Path) : Prop :=
  ∃ name content executable, part.find? name = some (.leaf (.file content executable)) ∧
    path = root.join name

/-- An entry that is no file does not change which files there are. -/
theorem isFileOf_cons_iff {first : Bytes} {rest : Folder} (entry : Entry) (fresh : rest.find? first = none)
    (other : ∀ content executable, entry ≠ .leaf (.file content executable)) :
    IsFileOf root (.cons first entry rest) path ↔ IsFileOf root rest path := by
  constructor
  · rintro ⟨name, content, executable, found, rfl⟩
    by_cases same : first = name
    · rw [same, Folder.find?_cons_self] at found
      exact absurd (Option.some.inj found) (other content executable)
    · rw [Folder.find?_cons_of_ne same] at found
      exact ⟨name, content, executable, found, rfl⟩
  · rintro ⟨name, content, executable, found, rfl⟩
    exact ⟨name, content, executable, find?_later fresh entry (fun _ _ found => found) name _ found, rfl⟩

/-- The files of a listed folder. -/
theorem mem_filesIn_iff {part : Folder} (named : part.WellNamed) :
    path ∈ filesIn root part ↔ IsFileOf root part path := by
  induction part with
  | empty => simp [filesIn, IsFileOf, Folder.find?]
  | leaf first single rest inductionHypothesis =>
    obtain ⟨_, fresh, named⟩ := named
    have later := inductionHypothesis named
    cases single with
    | file content executable =>
      rw [filesIn, List.mem_cons, later]
      constructor
      · rintro (rfl | ⟨name, content', executable', found, rfl⟩)
        · exact ⟨first, content, executable, by rw [Folder.find?, if_pos rfl], rfl⟩
        · exact ⟨name, content', executable',
            find?_later fresh (.leaf (.file content executable)) (fun _ _ found => found) name _ found, rfl⟩
      · rintro ⟨name, content, executable, found, rfl⟩
        by_cases same : first = name
        · exact .inl (by rw [same])
        · rw [Folder.find?, if_neg same] at found
          exact .inr ⟨name, content, executable, found, rfl⟩
    | link target => exact later.trans (isFileOf_cons_iff (.leaf (.link target)) fresh (by simp)).symm
    | socket identity => exact later.trans (isFileOf_cons_iff (.leaf (.socket identity)) fresh (by simp)).symm
    | device device => exact later.trans (isFileOf_cons_iff (.leaf (.device device)) fresh (by simp)).symm
  | folder first listable inner rest _ inductionHypothesis =>
    obtain ⟨_, fresh, _, named⟩ := named
    exact (inductionHypothesis named).trans (isFileOf_cons_iff (.folder listable inner) fresh (by simp)).symm

/-- The files of the root folder with an extension. -/
theorem mem_filter_filesIn_iff {extension : Bytes} (named : disk.root.WellNamed)
    (absolute : root.isAbsolute = true) (opened : disk.openFolder root = .ok folder) :
    path ∈ (filesIn root folder).filter (hasExtension extension) ↔ FileIn disk root extension path := by
  have below : Below disk root root folder := .root opened
  have named := below.wellNamed named absolute
  rw [List.mem_filter, mem_filesIn_iff named]
  constructor
  · rintro ⟨⟨name, content, executable, found, rfl⟩, ends⟩
    exact ⟨folder, name, content, executable, opened, found,
      (hasExtension_join (named.isName found) below.given).mp ends, rfl⟩
  · rintro ⟨folder', name, content, executable, opened', found, ends, rfl⟩
    obtain rfl := Except.ok.inj (opened.symm.trans opened')
    exact ⟨⟨name, content, executable, found, rfl⟩,
      (hasExtension_join (named.isName found) below.given).mpr ends⟩

/-- The choice among the files of the root folder is the solution. -/
theorem isSolution_findSome? {files : List Path}
    (members : ∀ extension path,
      path ∈ files.filter (hasExtension extension) ↔ FileIn disk root extension path)
    (extensions : List Bytes) :
    IsSolution disk root (((extensions.findSome? fun extension =>
      (sorted (files.filter (hasExtension extension))).head?).map Uri.ofPath).getD "") extensions := by
  induction extensions with
  | nil => rfl
  | cons extension extensions inductionHypothesis =>
    have first := head?_sorted (members extension)
    rw [List.findSome?_cons]
    cases chosen : (sorted (files.filter (hasExtension extension))).head? with
    | some path =>
      rw [chosen] at first
      exact .inl ⟨path, first, rfl⟩
    | none =>
      rw [chosen] at first
      exact .inr ⟨first, inductionHypothesis⟩

/-- The files that the traversal collects are the projects below the root, each once. -/
theorem collect_root (named : disk.root.WellNamed) (absolute : root.isAbsolute = true)
    (opened : disk.openFolder root = .ok folder) :
    (∀ path, path ∈ (collect [] [⟨root, true, folder⟩]).value ↔ ProjectBelow disk root path) ∧
      (collect [] [⟨root, true, folder⟩]).value.Pairwise
        fun first second => first.components ≠ second.components := by
  have below : Below disk root root folder := .root opened
  have given := below.given
  have short : obstacle? root true = none := by
    obtain ⟨place, located, _⟩ := Disk.openFolder_eq_ok_iff.mp opened
    simp [obstacle?, (Disk.locate_eq_ok located).2.2]
  have held : Pending.files ⟨root, true, folder⟩ = filesBelow root folder := by
    simp [Pending.files, short]
  have collected := collect_perm [] [⟨root, true, folder⟩]
  rw [List.nil_append, List.flatMap_singleton, held] at collected
  constructor
  · intro path
    rw [collected.mem_iff, List.mem_filter, mem_filesBelow_iff named absolute opened]
    constructor
    · rintro ⟨⟨above, inner, name, content, executable, below, found, rfl⟩, ends⟩
      have isName := (below.wellNamed named absolute).isName found
      exact ⟨above, inner, name, content, executable, below, found,
        (hasExtension_join isName below.given).mp ends, rfl⟩
    · rintro ⟨above, inner, name, content, executable, below, found, ends, rfl⟩
      have isName := (below.wellNamed named absolute).isName found
      exact ⟨⟨above, inner, name, content, executable, below, found, rfl⟩,
        (hasExtension_join isName below.given).mpr ends⟩
  · have distinct := filesBelow_pairwise (below.wellNamed named absolute) given
    exact (collected.pairwise_iff Ne.symm).mpr (distinct.filter _)

/-- Rows of paths that ascend and have no two members with the same components ascend strictly. -/
theorem sorted_strict {paths : List Path}
    (distinct : paths.Pairwise fun first second => first.components ≠ second.components) :
    (sorted paths).Pairwise fun first second => first.components < second.components := by
  have distinct := ((sorted_perm paths).pairwise_iff Ne.symm).mpr distinct
  exact (sorted_pairwise paths).imp₂ (fun _ _ ascends differs => Std.lt_of_le_of_ne ascends differs) distinct

/-- Nothing is below a root that cannot be listed. -/
theorem Below.root_opened (below : Below disk root path folder) : ∃ top, disk.openFolder root = .ok top := by
  induction below with
  | root opened => exact ⟨_, opened⟩
  | inner _ _ _ inductionHypothesis => exact inductionHypothesis

/-- What is found from a root on is what there is. -/
theorem survey_members (named : disk.root.WellNamed) (absolute : root.isAbsolute = true) :
    (∀ extension path, path ∈ (survey disk root).value.1.filter (hasExtension extension) ↔
      FileIn disk root extension path) ∧
    (∀ path, path ∈ (survey disk root).value.2 ↔ ProjectBelow disk root path) ∧
    (survey disk root).value.2.Pairwise fun first second => first.components ≠ second.components := by
  unfold survey
  cases opened : disk.openFolder root with
  | error failure =>
    refine ⟨?_, ?_, .nil⟩
    · intro extension path
      constructor
      · exact fun among => absurd among List.not_mem_nil
      · rintro ⟨_, _, _, _, opened', _⟩
        exact absurd (opened.symm.trans opened') (by simp)
    · intro path
      constructor
      · exact fun among => absurd among List.not_mem_nil
      · rintro ⟨_, _, _, _, _, below, _⟩
        obtain ⟨_, opened'⟩ := below.root_opened
        exact absurd (opened.symm.trans opened') (by simp)
  | ok folder =>
    obtain ⟨members, distinct⟩ := collect_root named absolute opened
    exact ⟨fun extension path => mem_filter_filesIn_iff named absolute opened, members, distinct⟩

/-- The workspace that is made of what is found from a root on is the one that there is. -/
theorem found_survey (named : disk.root.WellNamed) (absolute : root.isAbsolute = true) :
    Found disk root
      { solution := ((chooseSolution? (survey disk root).value.1).map Uri.ofPath).getD ""
        projects := (sorted (survey disk root).value.2).map Uri.ofPath } := by
  obtain ⟨own, members, distinct⟩ := survey_members named absolute
  have ascending := sorted_strict distinct
  refine ⟨⟨_, rfl, ascending, ?_⟩, ?_, isSolution_findSome? own _⟩
  · intro path
    rw [(sorted_perm _).mem_iff, members]
  · apply List.pairwise_map.mpr
    refine ascending.imp fun earlier same => ?_
    rw [Uri.ofPath_inj same] at earlier
    exact List.lt_irrefl _ earlier

/-! ## Only one workspace -/

/-- The least paths of one kind have the same components, so they have one URI. -/
theorem Least.ofPath_eq {kind kind' : Path → Prop} (same : ∀ path, kind path ↔ kind' path)
    {first second : Path} (least : Least kind first) (least' : Least kind' second) :
    Uri.ofPath first = Uri.ofPath second := by
  have components : first.components = second.components :=
    List.le_antisymm (least.2 second ((same second).mpr least'.1))
      (least'.2 first ((same first).mp least.1))
  unfold Uri.ofPath
  rw [components]

theorem IsSolution.unique {solution solution' : String} {extensions : List Bytes}
    (same : ∀ extension path, FileIn disk root extension path ↔ FileIn disk' root extension path)
    (isSolution : IsSolution disk root solution extensions)
    (isSolution' : IsSolution disk' root solution' extensions) : solution = solution' := by
  induction extensions with
  | nil => exact isSolution.trans isSolution'.symm
  | cons extension extensions inductionHypothesis =>
    rcases isSolution with ⟨path, least, rfl⟩ | ⟨none, later⟩
    · rcases isSolution' with ⟨path', least', rfl⟩ | ⟨none', _⟩
      · exact least.ofPath_eq (same extension) least'
      · exact absurd ((same extension path).mp least.1) (none' path)
    · rcases isSolution' with ⟨path', least', rfl⟩ | ⟨_, later'⟩
      · exact absurd ((same extension path').mpr least'.1) (none path')
      · exact inductionHypothesis later later'

/-- Rows that ascend strictly and have the same members are the same. -/
theorem eq_of_ascending {paths paths' : List Path}
    (ascending : paths.Pairwise fun first second => first.components < second.components)
    (ascending' : paths'.Pairwise fun first second => first.components < second.components)
    (same : ∀ path, path ∈ paths ↔ path ∈ paths') : paths = paths' := by
  have nodup {row : List Path}
      (ascending : row.Pairwise fun first second => first.components < second.components) :
      row.Nodup := by
    apply List.Pairwise.imp _ ascending
    rintro path _ earlier rfl
    exact List.lt_irrefl _ earlier
  apply List.Perm.eq_of_pairwise _ ascending ascending'
  · exact (List.perm_ext_iff_of_nodup (nodup ascending) (nodup ascending')).mpr same
  · intro first second _ _ earlier later
    exact absurd (List.lt_trans earlier later) (List.lt_irrefl _)

/-- Where there are the same files there is the same workspace. -/
theorem Found.unique (found : Found disk root workspace) (found' : Found disk' root workspace')
    (projects : ∀ path, ProjectBelow disk root path ↔ ProjectBelow disk' root path)
    (files : ∀ extension path, FileIn disk root extension path ↔ FileIn disk' root extension path) :
    workspace = workspace' := by
  obtain ⟨solution, _⟩ := workspace
  obtain ⟨solution', _⟩ := workspace'
  obtain ⟨paths, rfl, ascending, members⟩ := found.projects
  obtain ⟨paths', rfl, ascending', members'⟩ := found'.projects
  obtain rfl := eq_of_ascending ascending ascending'
    fun path => (members path).trans ((projects path).trans (members' path).symm)
  obtain rfl := found.solution.unique files found'.solution
  rfl

/-! ## The order of listing -/

/-- Folders below a root are below it in every order. -/
theorem Below.alike (below : Below disk root path folder) (alike : disk.Alike disk') :
    ∃ folder', Below disk' root path folder' ∧ folder.Alike folder' := by
  have opens {path : Path} {folder : Folder} (opened : disk.openFolder path = .ok folder) :
      ∃ folder', disk'.openFolder path = .ok folder' ∧ folder.Alike folder' := by
    have answers := alike.openFolder path
    rw [opened] at answers
    generalize disk'.openFolder path = answer at answers
    cases answers with
    | ok same => exact ⟨_, rfl, same⟩
  induction below with
  | root opened =>
    obtain ⟨folder', opened', same⟩ := opens opened
    exact ⟨folder', .root opened', same⟩
  | inner _ met opened inductionHypothesis =>
    obtain ⟨above', below', same⟩ := inductionHypothesis
    obtain ⟨inner', met', _⟩ := same.folder met
    obtain ⟨folder', opened', same'⟩ := opens opened
    exact ⟨folder', .inner below' met' opened', same'⟩

theorem ProjectBelow.alike (project : ProjectBelow disk root path) (alike : disk.Alike disk') :
    ProjectBelow disk' root path := by
  obtain ⟨above, folder, name, content, executable, below, found, ends, rfl⟩ := project
  obtain ⟨folder', below', same⟩ := below.alike alike
  exact ⟨above, folder', name, content, executable, below', same.leaf found, ends, rfl⟩

theorem FileIn.alike {extension : Bytes} (file : FileIn disk root extension path)
    (alike : disk.Alike disk') : FileIn disk' root extension path := by
  obtain ⟨folder, name, content, executable, opened, found, ends, rfl⟩ := file
  have below : Below disk root root folder := .root opened
  obtain ⟨folder', below', same⟩ := below.alike alike
  exact ⟨folder', name, content, executable, below'.opened, same.leaf found, ends, rfl⟩

/-! ## Discovery -/

/-- A root that is empty, is not a folder or cannot be made absolute has an empty workspace. -/
theorem discover_nothing (nothing : root = [] ∨ disk.isFolder root = false ∨
      ∃ failure, disk.absolute root = .error failure) : (discover disk root).value = {} := by
  unfold discover
  rcases nothing with empty | missing | ⟨failure, unknown⟩
  · rw [if_pos (.inl empty)]
    rfl
  · rw [if_pos (.inr (by simp [missing]))]
    rfl
  · split
    · rfl
    · rw [unknown]
      rfl

/-- Every other root has the workspace that is made of what is found from it on. -/
theorem discover_something {whole : Path} (given : root ≠ []) (isFolder : disk.isFolder root = true)
    (made : disk.absolute root = .ok whole) :
    (discover disk root).value =
      { solution := ((chooseSolution? (survey disk whole).value.1).map Uri.ofPath).getD ""
        projects := (sorted (survey disk whole).value.2).map Uri.ofPath } := by
  unfold discover
  rw [if_neg (by simp [given, isFolder]), made]
  rfl

/-- Discovery finds exactly the workspace that there is, each project once and in order, and nothing under
any other root. The order in which folders list their entries makes no difference. -/
theorem discovery_exact (disk : Disk) (root : Path) (named : disk.root.WellNamed) :
    ((root = [] ∨ disk.isFolder root = false ∨ ∃ failure, disk.absolute root = .error failure) →
      (discover disk root).value = {}) ∧
    (∀ whole, root ≠ [] → disk.isFolder root = true → disk.absolute root = .ok whole →
      Found disk whole (discover disk root).value) ∧
    ∀ tree, disk.root.Relisted tree →
      (discover { disk with root := tree } root).value = (discover disk root).value := by
  have finds {disk : Disk} (named : disk.root.WellNamed) {whole : Path} (given : root ≠ [])
      (isFolder : disk.isFolder root = true) (made : disk.absolute root = .ok whole) :
      Found disk whole (discover disk root).value := by
    rw [discover_something given isFolder made]
    exact found_survey named (Disk.isAbsolute_absolute made)
  refine ⟨discover_nothing, fun whole => finds named, fun tree relisted => ?_⟩
  have alike : disk.Alike { disk with root := tree } := ⟨⟨named, relisted⟩, rfl, rfl⟩
  by_cases given : root = []
  · rw [discover_nothing (.inl given), discover_nothing (.inl given)]
  · cases isFolder : disk.isFolder root with
    | false =>
      have isFolder' := (alike.isFolder root).trans isFolder
      rw [discover_nothing (.inr (.inl isFolder)), discover_nothing (.inr (.inl isFolder'))]
    | true =>
      have isFolder' := (alike.isFolder root).trans isFolder
      cases made : disk.absolute root with
      | error failure =>
        have made' := (alike.absolute root).trans made
        rw [discover_nothing (.inr (.inr ⟨failure, made⟩)),
          discover_nothing (.inr (.inr ⟨failure, made'⟩))]
      | ok whole =>
        have made' := (alike.absolute root).trans made
        apply (finds alike.root.symm.named given isFolder' made').unique (finds named given isFolder made)
        · exact fun path => ⟨(·.alike alike.symm), (·.alike alike)⟩
        · exact fun extension path => ⟨(·.alike alike.symm), (·.alike alike)⟩

end

/-- A tree with two solutions, and projects at several depths, in a folder that cannot be listed and behind a
link. Two entries of it are given in this order or in the other. -/
def mixedRoot (swapped : Bool) : Folder :=
  let sources : Folder :=
    .leaf (Bytes.ascii "b.csproj") (.file [] false)
      (.leaf (Bytes.ascii ".csproj") (.file [] false)
        (.folder (Bytes.ascii "a") true (.leaf (Bytes.ascii "x.CSPROJ") (.file [] false) .empty)
          (.leaf (Bytes.ascii "l.csproj") (.link (Bytes.ascii "b.csproj")) .empty)))
  let others : Folder :=
    .folder (Bytes.ascii "shut") false (.leaf (Bytes.ascii "c.csproj") (.file [] false) .empty)
      (.leaf (Bytes.ascii "b.slnx") (.file [] false) .empty)
  .folder (Bytes.ascii "w") true
    (if swapped then
      .folder (Bytes.ascii "src") true sources (.leaf (Bytes.ascii "z.sln") (.file [] false) others)
    else .leaf (Bytes.ascii "z.sln") (.file [] false) (.folder (Bytes.ascii "src") true sources others))
    .empty

/-- What is discovered there, in either order. -/
theorem mixed_discovered :
    (discover { root := mixedRoot false } (Bytes.ascii "/w")).value =
        { solution := "file:///w/b.slnx"
          projects := ["file:///w/src/a/x.CSPROJ", "file:///w/src/b.csproj"] } ∧
      Found { root := mixedRoot false } (Bytes.ascii "/w")
        (discover { root := mixedRoot false } (Bytes.ascii "/w")).value ∧
      (discover { root := mixedRoot true } (Bytes.ascii "/w")).value =
        (discover { root := mixedRoot false } (Bytes.ascii "/w")).value ∧
      (discover { root := mixedRoot false } []).value = {} := by
  have named : (mixedRoot false).WellNamed := by decide
  have relisted : (mixedRoot false).Relisted (mixedRoot true) :=
    .folder _ true (.swap (Bytes.ascii "z.sln") (Bytes.ascii "src") (.leaf (.file [] false)) (.folder true _) _)
      .empty
  obtain ⟨_, finds, same⟩ := discovery_exact { root := mixedRoot false } (Bytes.ascii "/w") named
  obtain ⟨nothing, _⟩ := discovery_exact { root := mixedRoot false } [] named
  exact ⟨by cbv, finds _ (by decide) (by cbv) (by cbv), same _ relisted, nothing (.inl rfl)⟩

end LspProxy.Workspace
