import LspProxy.Proofs.Disk.Names
import LspProxy.Workspace.Discovery

/-!
# Going through folders with a stack

What the pending folders still hold is said by recursion on the folders themselves (`filesBelow`). Listing
one of them moves its own files from there to those that are found, and replaces it by the folders in it,
which hold the rest (`Pending.list_perm`). So the files found and the files that are still held are together
the same in every round, up to their order, and a stack that has become empty has left every file found
exactly once, whatever was listed first (`collect_perm`).

Which paths these are is said without the stack as well. A folder is below the root if it is opened by the
path of a listed folder with the name of one of its folders behind it (`Below`). What the stack carries
along instead of opening it anew is what would be opened, as long as names are names (`mem_filesBelow_iff`).
-/
namespace LspProxy.Workspace

/-! ## What pending folders hold -/

/-- The files in a listed folder and in all folders below it that can be listed. -/
def filesBelow (path : Path) : Folder → List Path
  | .empty => []
  | .leaf name single others =>
    match single with
    | .file _ _ => path.join name :: filesBelow path others
    | _ => filesBelow path others
  | .folder name listable inner others =>
    (match obstacle? (path.join name) listable with
      | some _ => []
      | none => filesBelow (path.join name) inner) ++ filesBelow path others

/-- The files in and below a pending folder. -/
def Pending.files (pending : Pending) : List Path :=
  match obstacle? pending.path pending.listable with
  | some _ => []
  | none => filesBelow pending.path pending.inner

/-- The files in and below a folder are its own and those in and below its folders. -/
theorem filesBelow_perm (path : Path) (folder : Folder) :
    (filesBelow path folder).Perm
      (filesIn path folder ++ (foldersIn path folder).flatMap Pending.files) := by
  induction folder with
  | empty => exact .refl _
  | leaf name single others inductionHypothesis =>
    cases single with
    | file content executable => exact .cons _ inductionHypothesis
    | link target => exact inductionHypothesis
    | socket identity => exact inductionHypothesis
    | device device => exact inductionHypothesis
  | folder name listable inner others _ inductionHypothesis =>
    rw [foldersIn, List.flatMap_cons]
    exact (inductionHypothesis.append_left _).trans (List.perm_append_comm_assoc _ _ _)

/-- Listing a pending folder loses no file and doubles none. -/
theorem Pending.list_perm (pending : Pending) :
    pending.files.Perm (pending.list.value.1 ++ pending.list.value.2.flatMap Pending.files) := by
  unfold Pending.list
  cases free : obstacle? pending.path pending.listable with
  | some failure => simp [Pending.files, free]
  | none =>
    have held : pending.files = filesBelow pending.path pending.inner := by simp [Pending.files, free]
    rw [held]
    exact filesBelow_perm pending.path pending.inner

/-- What has been found in the end: what was found before, and the project files that were pending. -/
theorem collect_perm (found : List Path) (pending : List Pending) :
    (collect found pending).value.Perm
      (found ++ (pending.flatMap Pending.files).filter (hasExtension projectExtension)) := by
  fun_induction collect found pending with
  | case1 found => simp
  | case2 found last others listed whole inductionHypothesis =>
    have moved : (last.files ++ others.flatMap Pending.files).Perm
        (listed.value.1 ++ (listed.value.2.reverse ++ others).flatMap Pending.files) := by
      rw [List.flatMap_append, ← List.append_assoc]
      apply List.Perm.append_right
      apply last.list_perm.trans
      exact ((List.reverse_perm _).symm.flatMap_right _).append_left _
    apply inductionHypothesis.trans
    rw [List.append_assoc, ← List.filter_append, List.flatMap_cons]
    exact ((moved.symm.filter _).append_left _)

/-! ## Folders below a root -/

/-- A folder that is the root, or is met in a listed folder below it, and that can be listed itself. -/
inductive Below (disk : Disk) (root : Path) : Path → Folder → Prop
  | root {folder : Folder} (opened : disk.openFolder root = .ok folder) : Below disk root root folder
  | inner {path : Path} {name : Bytes} {listable : Bool} {folder inner reached : Folder}
    (above : Below disk root path folder) (met : folder.find? name = some (.folder listable inner))
    (opened : disk.openFolder (path.join name) = .ok reached) : Below disk root (path.join name) reached

/-- A file with a name in a folder below the root. -/
def FileBelow (disk : Disk) (root path : Path) : Prop :=
  ∃ above folder name content executable, Below disk root above folder ∧
    folder.find? name = some (.leaf (.file content executable)) ∧ path = above.join name

section

variable {disk : Disk} {root path : Path} {name : Bytes} {folder inner : Folder} {listable : Bool}

theorem Below.opened (below : Below disk root path folder) : disk.openFolder path = .ok folder := by
  cases below with
  | root opened => exact opened
  | inner _ _ opened => exact opened

theorem Below.given (below : Below disk root path folder) : path ≠ [] := by
  obtain ⟨place, located, _⟩ := Disk.openFolder_eq_ok_iff.mp below.opened
  exact (Disk.locate_eq_ok located).2.1

/-- A folder that is met in a listed folder can be opened exactly if nothing is in the way, and it is what
is opened then. -/
theorem openFolder_join_iff {reached : Folder} (opened : disk.openFolder path = .ok folder)
    (isName : Path.IsName name) (met : folder.find? name = some (.folder listable inner)) :
    disk.openFolder (path.join name) = .ok reached ↔
      obstacle? (path.join name) listable = none ∧ inner = reached := by
  rw [Disk.openFolder_join opened isName met]
  unfold obstacle?
  split
  · simp
  · cases listable <;> simp

/-- All folders below a root that starts at the root of the tree are well named. -/
theorem Below.wellNamed (below : Below disk root path folder) (named : disk.root.WellNamed)
    (absolute : root.isAbsolute = true) : folder.WellNamed := by
  induction below with
  | root opened => exact Disk.wellNamed_openFolder named absolute opened
  | inner above met opened inductionHypothesis =>
    obtain ⟨_, rfl⟩ :=
      (openFolder_join_iff above.opened (inductionHypothesis.isName met) met).mp opened
    exact inductionHypothesis.find? met

/-! ## The files below a root -/

/-- A file of a folder is among its files. -/
theorem join_mem_filesBelow {content : Bytes} {executable : Bool}
    (found : folder.find? name = some (.leaf (.file content executable))) :
    path.join name ∈ filesBelow path folder := by
  induction folder with
  | empty => exact absurd found (by simp [Folder.find?])
  | leaf first single others inductionHypothesis =>
    by_cases same : first = name
    · rw [Folder.find?, if_pos same] at found
      obtain rfl := Entry.leaf.inj (Option.some.inj found)
      rw [← same]
      exact List.mem_cons_self
    · rw [Folder.find?, if_neg same] at found
      have among := inductionHypothesis found
      cases single with
      | file content executable => exact List.mem_cons_of_mem _ among
      | link | socket | device => exact among
  | folder first listable inner others _ inductionHypothesis =>
    by_cases same : first = name
    · exact absurd found (by simp [Folder.find?, same])
    · rw [Folder.find?, if_neg same] at found
      exact List.mem_append_right _ (inductionHypothesis found)

/-- So are the files below a folder in it, if nothing is in the way. -/
theorem filesBelow_inner (found : folder.find? name = some (.folder listable inner))
    (free : obstacle? (path.join name) listable = none) :
    ∀ file ∈ filesBelow (path.join name) inner, file ∈ filesBelow path folder := by
  intro file among
  induction folder with
  | empty => exact absurd found (by simp [Folder.find?])
  | leaf first single others inductionHypothesis =>
    by_cases same : first = name
    · exact absurd found (by simp [Folder.find?, same])
    · rw [Folder.find?, if_neg same] at found
      have among := inductionHypothesis found
      cases single with
      | file content executable => exact List.mem_cons_of_mem _ among
      | link | socket | device => exact among
  | folder first listable' below others _ inductionHypothesis =>
    by_cases same : first = name
    · rw [Folder.find?, if_pos same] at found
      obtain ⟨rfl, rfl⟩ := Entry.folder.inj (Option.some.inj found)
      subst same
      apply List.mem_append_left
      rw [free]
      exact among
    · rw [Folder.find?, if_neg same] at found
      exact List.mem_append_right _ (inductionHypothesis found)

/-- An entry that has a name of its own hides none of those behind it. -/
theorem find?_later {first : Bytes} {others here : Folder} (fresh : others.find? first = none)
    (entry : Entry) (within : ∀ name seen, (Folder.cons first entry others).find? name = some seen →
      here.find? name = some seen) :
    ∀ name seen, others.find? name = some seen → here.find? name = some seen := by
  intro name seen found
  apply within
  by_cases same : first = name
  · exact absurd (same ▸ found) (by simp [fresh])
  · rwa [Folder.find?_cons_of_ne same]

/-- What is among the files in and below a part of a folder below the root is a file below the root. -/
theorem fileBelow_of_mem {file : Path} {part : Folder} (named : part.WellNamed)
    (below : Below disk root path folder)
    (within : ∀ name entry, part.find? name = some entry → folder.find? name = some entry)
    (among : file ∈ filesBelow path part) : FileBelow disk root file := by
  induction part generalizing path folder with
  | empty => exact absurd among List.not_mem_nil
  | leaf first single rest inductionHypothesis =>
    obtain ⟨isName, fresh, named⟩ := named
    have later := inductionHypothesis named below (find?_later fresh (.leaf single) within)
    cases single with
    | file content executable =>
      rcases List.mem_cons.mp among with rfl | among
      · exact ⟨path, folder, first, content, executable, below,
          within first _ (by rw [Folder.find?, if_pos rfl]), rfl⟩
      · exact later among
    | link | socket | device => exact later among
  | folder first listable inner rest inside inductionHypothesis =>
    obtain ⟨isName, fresh, inner', named⟩ := named
    rcases List.mem_append.mp among with among | among
    · split at among
      · exact absurd among List.not_mem_nil
      · rename_i free
        have met := within first _ (by rw [Folder.find?, if_pos rfl])
        have opened := (openFolder_join_iff below.opened isName met).mpr ⟨free, rfl⟩
        exact inside inner' (.inner below met opened) (fun _ _ found => found) among
    · exact inductionHypothesis named below (find?_later fresh (.folder listable inner) within) among

/-- Every folder below the root has its files among those of the root. -/
theorem Below.filesBelow_subset {top : Folder} (below : Below disk root path folder)
    (named : disk.root.WellNamed) (absolute : root.isAbsolute = true)
    (opened : disk.openFolder root = .ok top) :
    ∀ file ∈ filesBelow path folder, file ∈ filesBelow root top := by
  induction below with
  | root opened' =>
    obtain rfl := Except.ok.inj (opened'.symm.trans opened)
    exact fun _ among => among
  | inner above met opened' inductionHypothesis =>
    obtain ⟨free, rfl⟩ :=
      (openFolder_join_iff above.opened ((above.wellNamed named absolute).isName met) met).mp opened'
    exact fun file among => inductionHypothesis file (filesBelow_inner met free file among)

/-- The files in and below a root are those of all folders that the root leads to. -/
theorem mem_filesBelow_iff {file : Path} (named : disk.root.WellNamed) (absolute : root.isAbsolute = true)
    (opened : disk.openFolder root = .ok folder) :
    file ∈ filesBelow root folder ↔ FileBelow disk root file := by
  constructor
  · intro among
    have below : Below disk root root folder := .root opened
    exact fileBelow_of_mem (below.wellNamed named absolute) below (fun _ _ found => found) among
  · rintro ⟨above, inner, name, content, executable, below, found, rfl⟩
    exact below.filesBelow_subset named absolute opened _ (join_mem_filesBelow found)

/-! ## No file twice -/

/-- A name that is seen behind an entry is seen with the entry in front as well. -/
theorem find?_ne_none_behind {first : Bytes} {others : Folder} (entry : Entry)
    (seen : others.find? name ≠ none) : (Folder.cons first entry others).find? name ≠ none := by
  by_cases same : first = name
  · rw [same, Folder.find?_cons_self]
    exact Option.some_ne_none entry
  · rwa [Folder.find?_cons_of_ne same]

/-- What is found below a folder has a name of the folder behind its components. -/
theorem components_of_mem_filesBelow {file : Path} {part : Folder} (named : part.WellNamed)
    (given : path ≠ []) (among : file ∈ filesBelow path part) :
    ∃ name later, part.find? name ≠ none ∧ file.components = path.components ++ name :: later := by
  induction part generalizing path with
  | empty => exact absurd among List.not_mem_nil
  | leaf first single rest inductionHypothesis =>
    obtain ⟨isName, fresh, named⟩ := named
    have later (among : file ∈ filesBelow path rest) : ∃ name later,
        (Folder.leaf first single rest).find? name ≠ none ∧
          file.components = path.components ++ name :: later := by
      obtain ⟨name, later, seen, components⟩ := inductionHypothesis named given among
      exact ⟨name, later, find?_ne_none_behind (.leaf single) seen, components⟩
    cases single with
    | file content executable =>
      rcases List.mem_cons.mp among with rfl | among
      · exact ⟨first, [], by simp [Folder.find?], Path.components_join isName given⟩
      · exact later among
    | link | socket | device => exact later among
  | folder first listable inner rest inside inductionHypothesis =>
    obtain ⟨isName, fresh, inner', named⟩ := named
    rcases List.mem_append.mp among with among | among
    · split at among
      · exact absurd among List.not_mem_nil
      · obtain ⟨name, later, _, components⟩ := inside inner' (Path.join_ne_nil isName given) among
        refine ⟨first, name :: later, by simp [Folder.find?], ?_⟩
        rw [components, Path.components_join isName given, List.append_assoc]
        rfl
    · obtain ⟨name, later, seen, components⟩ := inductionHypothesis named given among
      exact ⟨name, later, find?_ne_none_behind (.folder listable inner) seen, components⟩

/-- What is found behind one entry is not found behind another. -/
theorem components_ne_of_fresh {file other : Path} {first : Bytes} {later : List Bytes} {rest : Folder}
    (fresh : rest.find? first = none) (components : file.components = path.components ++ first :: later)
    (named : rest.WellNamed) (given : path ≠ []) (among : other ∈ filesBelow path rest) :
    file.components ≠ other.components := by
  intro same
  obtain ⟨name, later', seen, components'⟩ := components_of_mem_filesBelow named given among
  rw [components, components'] at same
  obtain ⟨rfl, _⟩ := List.cons.inj (List.append_cancel_left same)
  exact seen fresh

/-- No two files below a folder have the same components. -/
theorem filesBelow_pairwise {part : Folder} (named : part.WellNamed) (given : path ≠ []) :
    (filesBelow path part).Pairwise fun file other => file.components ≠ other.components := by
  induction part generalizing path with
  | empty => exact .nil
  | leaf first single rest inductionHypothesis =>
    obtain ⟨isName, fresh, named⟩ := named
    have later := inductionHypothesis named given
    cases single with
    | file content executable =>
      refine .cons (fun other among => ?_) later
      exact components_ne_of_fresh fresh (Path.components_join isName given) named given among
    | link | socket | device => exact later
  | folder first listable inner rest inside inductionHypothesis =>
    obtain ⟨isName, fresh, inner', named⟩ := named
    apply List.pairwise_append.mpr
    refine ⟨?_, inductionHypothesis named given, ?_⟩
    · split
      · exact .nil
      · exact inside inner' (Path.join_ne_nil isName given)
    · intro file among other among'
      split at among
      · exact absurd among List.not_mem_nil
      · obtain ⟨name, later, _, components⟩ :=
          components_of_mem_filesBelow inner' (Path.join_ne_nil isName given) among
        rw [Path.components_join isName given, List.append_assoc] at components
        exact components_ne_of_fresh fresh components named given among'

end

end LspProxy.Workspace
