import LspProxy.Channel.Connection
import LspProxy.Relay.MessageLog

/-!
# The sockets in a file system

Only binding a channel makes a socket. Whatever else the proxy does to the file system leaves the sockets
in it as they are, or takes some of them away. The observation is the list of all sockets in the tree, in
the order in which the tree holds them: a change that makes no socket leaves a sublist of it. Where in the
tree the change takes place does not matter, so no path has to be followed here.
-/
namespace LspProxy

/-- The socket that a leaf is. -/
def Leaf.sockets : Leaf → List Nat
  | .socket identity => [identity]
  | _ => []

namespace Folder

/-- All sockets in a folder and in those below it. -/
def sockets : Folder → List Nat
  | empty => []
  | leaf _ entry others => entry.sockets ++ others.sockets
  | folder _ _ inner others => inner.sockets ++ others.sockets

end Folder

/-- All sockets of an entry. -/
def Entry.sockets : Entry → List Nat
  | .leaf single => single.sockets
  | .folder _ inner => inner.sockets

namespace Folder

theorem sockets_cons (name : Bytes) (entry : Entry) (others : Folder) :
    (cons name entry others).sockets = entry.sockets ++ others.sockets := by
  cases entry <;> rfl

/-- An entry that is no socket and holds none brings none with it. -/
theorem sockets_put {entry : Entry} (none : entry.sockets = []) (name : Bytes) (here : Folder) :
    (here.put name entry).sockets.Sublist here.sockets := by
  induction here with
  | empty =>
    rw [put, sockets_cons, none]
    exact .refl _
  | leaf other old others inductionHypothesis =>
    by_cases same : other = name
    · rw [put, if_pos same, sockets_cons, none]
      exact List.sublist_append_right _ _
    · rw [put, if_neg same]
      exact inductionHypothesis.append_left old.sockets
  | folder other listable inner others _ inductionHypothesis =>
    by_cases same : other = name
    · rw [put, if_pos same, sockets_cons, none]
      exact List.sublist_append_right _ _
    · rw [put, if_neg same]
      exact inductionHypothesis.append_left inner.sockets

theorem sockets_erase (name : Bytes) (here : Folder) :
    (here.erase name).sockets.Sublist here.sockets := by
  induction here with
  | empty => exact .refl _
  | leaf other old others inductionHypothesis =>
    by_cases same : other = name
    · rw [erase, if_pos same]
      exact List.sublist_append_right _ _
    · rw [erase, if_neg same]
      exact inductionHypothesis.append_left old.sockets
  | folder other listable inner others _ inductionHypothesis =>
    by_cases same : other = name
    · rw [erase, if_pos same]
      exact List.sublist_append_right _ _
    · rw [erase, if_neg same]
      exact inductionHypothesis.append_left inner.sockets

/-- A change that makes no socket where it takes place makes none in the whole tree. -/
theorem sockets_modify? {edit : Folder → Folder}
    (spares : ∀ here : Folder, (edit here).sockets.Sublist here.sockets) {names : List Bytes}
    {before after : Folder} (modified : before.modify? edit names = some after) :
    after.sockets.Sublist before.sockets := by
  fun_induction modify? edit names before generalizing after with
  | case1 here =>
    obtain rfl := Option.some.inj modified
    exact spares here
  | case2 name names => exact absurd modified (by simp)
  | case3 name names other entry others inductionHypothesis =>
    obtain ⟨changed, found, rfl⟩ := Option.map_eq_some_iff.mp modified
    exact (inductionHypothesis found).append_left entry.sockets
  | case4 name names listable inner others inductionHypothesis =>
    obtain ⟨changed, found, rfl⟩ := Option.map_eq_some_iff.mp modified
    exact (inductionHypothesis found).append_right others.sockets
  | case5 name names other listable inner others differs inductionHypothesis =>
    obtain ⟨changed, found, rfl⟩ := Option.map_eq_some_iff.mp modified
    exact (inductionHypothesis found).append_left inner.sockets

end Folder

namespace Disk

/-- All sockets in the tree. -/
def sockets (disk : Disk) : List Nat := disk.root.sockets

/-- A change after which there are no sockets but those before it. -/
def Spares (before after : Disk) : Prop := after.sockets.Sublist before.sockets

theorem Spares.refl (disk : Disk) : Spares disk disk := List.Sublist.refl disk.sockets

theorem Spares.trans {before middle after : Disk} (first : Spares before middle)
    (second : Spares middle after) : Spares before after :=
  List.Sublist.trans second first

theorem change_spares {edit : Folder → Folder}
    (spares : ∀ here : Folder, (edit here).sockets.Sublist here.sockets) {disk after : Disk}
    {place : Place} (changed : disk.change place edit = .ok after) : Spares disk after := by
  unfold change at changed
  split at changed
  · rename_i root modified
    obtain rfl := Except.ok.inj changed
    exact Folder.sockets_modify? spares modified
  · exact absurd changed (by simp)

theorem makeFolder_spares {disk after : Disk} {path : Path}
    (made : disk.makeFolder path = .ok after) : Spares disk after := by
  unfold makeFolder at made
  split at made
  · exact absurd made (by simp)
  · exact change_spares (fun here => Folder.sockets_put rfl _ here) made
  · exact absurd made (by simp)

/-- Making folders on the way to one makes no socket, however far it comes. -/
theorem makeFolders_spares (disk : Disk) (paths : List Path) :
    Spares disk (disk.makeFolders paths).2 := by
  induction paths generalizing disk with
  | nil => exact .refl disk
  | cons path above inductionHypothesis =>
    have higher := inductionHypothesis disk
    unfold makeFolders
    split
    · rename_i after made
      exact makeFolder_spares made
    · split
      · split
        · rename_i between raised
          rw [raised] at higher
          exact higher
        · rename_i between raised
          rw [raised] at higher
          split
          · rename_i after made
            exact higher.trans (makeFolder_spares made)
          · exact higher
      · exact .refl disk

theorem openFile_spares {disk after : Disk} {path : Path} {opened : Opened}
    (found : disk.openFile path = .ok (opened, after)) : Spares disk after := by
  unfold openFile at found
  split at found
  · exact absurd found (by simp)
  · exact absurd found (by simp)
  · exact absurd found (by simp)
  · rename_i place name _
    cases changed : disk.change place (·.put name (.leaf (.file [] false))) with
    | error failure => exact absurd found (by simp [changed, bind, Except.bind])
    | ok middle =>
      simp only [changed, bind, Except.bind, pure, Except.pure, Except.ok.injEq,
        Prod.mk.injEq] at found
      obtain ⟨_, rfl⟩ := found
      exact change_spares (fun here => Folder.sockets_put rfl _ here) changed
  · split at found
    · obtain ⟨_, rfl⟩ := Prod.mk.inj (Except.ok.inj found)
      exact .refl disk
    · exact absurd found (by simp)
    · exact absurd found (by simp)
    · obtain ⟨_, rfl⟩ := Prod.mk.inj (Except.ok.inj found)
      exact .refl disk

theorem append_spares {disk after : Disk} {path : Path} {bytes : Bytes}
    (appended : disk.append path bytes = .ok after) : Spares disk after := by
  unfold append at appended
  cases opened : disk.openFile path with
  | error failure => exact absurd appended (by simp [opened, bind, Except.bind])
  | ok found =>
    obtain ⟨opening, middle⟩ := found
    have spared := openFile_spares opened
    simp only [opened, bind, Except.bind] at appended
    cases opening with
    | file place name content executable =>
      exact spared.trans (change_spares (fun here => Folder.sockets_put rfl _ here) appended)
    | device device =>
      cases device with
      | void =>
        obtain rfl := Except.ok.inj appended
        exact spared
      | full =>
        simp only at appended
        split at appended
        · obtain rfl := Except.ok.inj appended
          exact spared
        · exact absurd appended (by simp)

theorem remove_spares {disk after : Disk} {path : Path}
    (removed : disk.remove path = .ok after) : Spares disk after := by
  unfold remove at removed
  split at removed
  · exact absurd removed (by simp)
  · exact absurd removed (by simp)
  · exact absurd removed (by simp)
  · exact change_spares (fun here => Folder.sockets_erase _ here) removed

end Disk

/-! ## The message log and the channel -/

namespace Relay.MessageLog

theorem openFile_spares (disk : Disk) (path : Path) (refusal : Option Failure) :
    disk.Spares (openFile disk path refusal).2 := by
  have folders : disk.Spares (disk.ensureParent path).2 := disk.makeFolders_spares _
  unfold openFile
  split
  · rename_i failure middle made
    rw [made] at folders
    exact folders
  · rename_i middle made
    rw [made] at folders
    split
    · exact folders
    · split
      · exact folders
      · rename_i after appended
        exact folders.trans (Disk.append_spares appended)

/-- Opening the log makes no socket. -/
theorem start_spares (disk : Disk) (path? : Option Path) (mishap : Mishap) :
    disk.Spares (start disk path? mishap).value.2 := by
  cases path? with
  | none => exact .refl disk
  | some path =>
    have opening := openFile_spares disk path mishap.refusal
    unfold start
    split
    · rename_i impossible
      exact absurd impossible (by simp)
    · rename_i same
      obtain rfl := Option.some.inj same
      split
      · rename_i opened
        rw [opened] at opening
        exact opening
      · rename_i opened
        rw [opened] at opening
        exact opening

theorem write_spares (disk : Disk) (path : Path) (wire : Bytes) (breakdown : Option Breakdown) :
    disk.Spares (write disk path wire breakdown).2 := by
  unfold write
  split
  all_goals
    split
    · rename_i appended
      exact Disk.append_spares appended
    · exact .refl disk

/-- Recording a frame makes no socket. -/
theorem record_spares (disk : Disk) (log : MessageLog) (wire : Bytes) :
    disk.Spares (log.record disk wire).value.2 := by
  unfold record
  split
  · exact .refl disk
  · rename_i path enabled
    have written := write_spares disk path wire log.breakdown
    split
    · rename_i result
      rw [result] at written
      exact written
    · rename_i result
      rw [result] at written
      exact written

end Relay.MessageLog

namespace Channel

/-- To give a listener up makes no socket. -/
theorem Listener.release_spares (disk : Disk) (listener : Listener) :
    disk.Spares (listener.release disk).value := by
  unfold release
  split
  · cases removed : disk.remove listener.path with
    | error failure => exact .refl disk
    | ok after => exact Disk.remove_spares removed
  · exact .refl disk

theorem Prepared.release_spares (disk : Disk) (prepared : Prepared) :
    disk.Spares (prepared.release disk).value := by
  cases prepared with
  | standard => exact .refl disk
  | listening listener => exact listener.release_spares disk

end Channel

end LspProxy
