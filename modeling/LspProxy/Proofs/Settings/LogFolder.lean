import LspProxy.Proofs.Disk.Extensions
import LspProxy.Settings.Basic
import Mathlib.Data.List.Basic

/-!
# Where the logs of a root are kept

All log folders stand in one folder, and the one for a root has what is left of the root's name when its
extension is cut off. What is left is a name without slashes and is not empty, so the log folder is written as
the folder of all logs with one name behind it. But it may be the name for the current place or for the place
above: no root is called so, yet a root may be called so with an extension. A root without any name is looked
after, such a root is not.

So the log folder is one of the folders in the folder of all logs unless the root's name is one of these two
with an extension, and is the folder of all logs or the one above it if it is
(`log_folder_below_unless_dotted`).
-/
namespace LspProxy

namespace Disk

variable {disk : Disk} {path : Path} {name : Bytes} {place : Place} {listed : Bool}

/-- Where a name is looked up that stands behind a path that leads to a folder. -/
theorem locate_behind (located : disk.locate true path = .ok (.folder place listed))
    (unslashed : Path.slash ∉ name) (plain : 0 ∉ name) (short : (path ++ Path.slash :: name).length < pathBound) :
    ∃ left, disk.locate true (path ++ Path.slash :: name) = walk true left place listed [name] := by
  obtain ⟨plain', given, short'⟩ := locate_eq_ok located
  have names : (path ++ Path.slash :: name).names = path.names ++ [name] := by
    rw [Path.names, Text.fields_append_separator rfl, Path.fields_of_unslashed unslashed]
    rfl
  have begins : (path ++ Path.slash :: name).isAbsolute = path.isAbsolute := by
    obtain ⟨b, rest, rfl⟩ := List.exists_cons_of_ne_nil given
    rfl
  have clean : ¬ (path ++ Path.slash :: name).any (· = 0) = true := by
    rw [List.any_append, List.any_cons, Bool.or_eq_true, Bool.or_eq_true, List.any_eq_true (l := name)]
    rintro (above | slash | ⟨b, among, zero⟩)
    · exact plain' above
    · exact absurd slash (by decide)
    · exact plain (of_decide_eq_true zero ▸ among)
  unfold locate at located ⊢
  rw [if_neg plain', if_neg given, if_neg short', ← List.append_nil path.names] at located
  obtain ⟨left, goes⟩ := walk_through rfl located
  refine ⟨left, ?_⟩
  rw [if_neg clean, if_neg (by simp), if_neg (Nat.not_le.mpr short), begins, names, goes]

/-- The path leads to what has this name in the folder at this place, or to where it would be, unless a link
has the name. -/
structure LeadsTo (disk : Disk) (path : Path) (place : Place) (name : Bytes) : Prop where
  settles : Ending (place.folder.find? name) → disk.locate true path = place.settle name
  enters : ∀ listable inner, place.folder.find? name = some (.folder listable inner) →
    disk.locate true path = .ok (.folder (place.enter name inner) listable)

/-- A path with a name behind it leads to what has the name. -/
theorem leadsTo_behind (located : disk.locate true path = .ok (.folder place listed))
    (isName : Path.IsName name) (short : (path ++ Path.slash :: name).length < pathBound) :
    disk.LeadsTo (path ++ Path.slash :: name) place name := by
  obtain ⟨left, goes⟩ := locate_behind located isName.unslashed isName.plain short
  have counts : ¬ (name = [] ∨ name = Path.current) := not_or.mpr ⟨isName.nonempty, isName.notCurrent⟩
  constructor
  · intro ends
    rw [goes, walk_last counts isName.notParent (Nat.not_lt.mpr isName.short) ends]
  · intro listable inner met
    rw [goes, walk, if_neg counts, if_neg isName.notParent, if_neg (Nat.not_lt.mpr isName.short), met]
    simp only [walk]

end Disk

namespace Settings

variable {temporary projectRoot : Path} {name : Bytes}

/-- The root's name is this one with an extension. -/
def IsExtended (name : Bytes) (projectRoot : Path) : Prop :=
  ∃ extension, projectRoot.fileName? = some (name ++ 0x2E :: extension) ∧ 0x2E ∉ extension

/-- What a log folder is called when the root has a name. -/
theorem logName_of_fileName? (named : projectRoot.fileName? = some name) :
    logName projectRoot = (Path.cutName name).1 := by
  rw [logName, Path.stem?_eq_some_iff.mpr ⟨name, named, rfl⟩]
  rfl

/-- And when it has none. -/
theorem logName_of_nameless (nameless : projectRoot.fileName? = none) : logName projectRoot = namelessRoot := by
  rw [logName, Path.stem?, nameless]
  rfl

/-- A log folder has a name, and no slash is in it. -/
theorem logName_single (projectRoot : Path) : logName projectRoot ≠ [] ∧ Path.slash ∉ logName projectRoot := by
  cases named : projectRoot.fileName? with
  | none =>
    rw [logName_of_nameless named]
    decide
  | some name =>
    obtain ⟨⟨given, _⟩, _, unslashed⟩ := Path.fileName?_counts named
    obtain ⟨left, within⟩ := Path.cutName_stem given
    rw [logName_of_fileName? named]
    exact ⟨left, fun among => unslashed (within among)⟩

/-- The log folder is called by a name that no root has exactly if the root's name is that name with an
extension. -/
theorem logName_eq_iff (given : name ≠ []) (usual : name ≠ namelessRoot)
    (unnamed : projectRoot.fileName? ≠ some name) :
    logName projectRoot = name ↔ IsExtended name projectRoot := by
  rw [IsExtended]
  cases named : projectRoot.fileName? with
  | none =>
    rw [logName_of_nameless named]
    simpa using usual.symm
  | some found =>
    have other : found ≠ name := fun same => unnamed (named.trans (congrArg some same))
    rw [logName_of_fileName? named, Path.cutName_stem_iff given other]
    simp

/-- The log folder is the folder of all logs with one name behind it. -/
theorem logFolderBelow_eq (temporary projectRoot : Path) :
    logFolderBelow temporary projectRoot =
      temporary.join logFolderName ++ Path.slash :: logName projectRoot := by
  have ends : (temporary.join logFolderName).getLast? = some 0x6D := by
    unfold Path.join
    split
    · rfl
    · split <;> rw [List.getLast?_append] <;> rfl
  change (temporary.join logFolderName).join (logName projectRoot) = _
  have relative := Path.relative_of_unslashed (logName_single projectRoot).2
  rw [Path.join, if_neg (by rw [relative]; exact Bool.false_ne_true)]
  refine if_neg (not_or.mpr ⟨?_, ?_⟩)
  · intro empty
    rw [empty] at ends
    exact absurd ends nofun
  · rw [ends]
    decide

/-- The components of a path with a name behind it. -/
theorem components_behind (path : Path) (counts : Path.Counts name) (unslashed : Path.slash ∉ name) :
    (path ++ Path.slash :: name).components = path.components ++ [name] := by
  have kept : [name].filter (fun name => decide (name ≠ [] ∧ name ≠ Path.current)) = [name] :=
    List.filter_cons_of_pos (decide_eq_true counts)
  unfold Path.components
  rw [Path.names, Text.fields_append_separator rfl, Path.fields_of_unslashed unslashed, List.filter_append, kept]
  rfl

/-- The folder for the logs of a root is written as the folder of all logs with one name behind it, which is
what the server is told. The name is a component of its own, and the path leads to what has this name there,
unless the name is the one for the current place or for the place above; and it is one of these exactly if
the root is called so with an extension. Then the logs are kept in the folder of all logs itself, or above
it. -/
theorem log_folder_below_unless_dotted (projectRoot : Path) :
    let name := logName projectRoot
    name ≠ [] ∧ Path.slash ∉ name ∧
    (name = Path.current ↔ IsExtended Path.current projectRoot) ∧
    (name = Path.parent ↔ IsExtended Path.parent projectRoot) ∧
    (∀ temporary : Path,
      let logs := temporary.join logFolderName
      let folder := logFolderBelow temporary projectRoot
      folder = logs ++ Path.slash :: name ∧
      (name ≠ Path.current → name ≠ Path.parent →
        folder.components = logs.components ++ [name] ∧ folder.fileName? = some name) ∧
      ∀ (disk : Disk) (place : Disk.Place) (listed : Bool),
        disk.locate true logs = .ok (.folder place listed) → 0 ∉ name → folder.length < Disk.pathBound →
          (name = Path.current → disk.locate true folder = .ok (.folder place listed)) ∧
          (name = Path.parent → disk.locate true folder = .ok (.folder place.above true)) ∧
          (name ≠ Path.current → name ≠ Path.parent → name.length ≤ Disk.nameLimit →
            disk.LeadsTo folder place name)) ∧
    ∀ (program : Path) (endpoint : Endpoint),
      (usual program projectRoot endpoint).serverArguments =
        [Bytes.ascii "--logLevel", Text.Utf8.ofString usualLogLevel, Bytes.ascii "--extensionLogDirectory",
          logFolderBelow Channel.temporaryFolder projectRoot] ++ endpoint.arguments := by
  intro name
  obtain ⟨given, unslashed⟩ := logName_single projectRoot
  have unnamed {idle : Bytes} (moves : idle = Path.current ∨ idle = Path.parent) :
      projectRoot.fileName? ≠ some idle := by
    intro named
    obtain ⟨⟨_, notCurrent⟩, notParent, _⟩ := Path.fileName?_counts named
    exact moves.elim notCurrent notParent
  refine ⟨given, unslashed, logName_eq_iff (by decide) (by decide) (unnamed (.inl rfl)),
    logName_eq_iff (by decide) (by decide) (unnamed (.inr rfl)), ?_, fun program endpoint => rfl⟩
  intro temporary logs folder
  have written : folder = logs ++ Path.slash :: name := logFolderBelow_eq temporary projectRoot
  refine ⟨written, ?_, ?_⟩
  · intro notCurrent notParent
    have components : folder.components = logs.components ++ [name] :=
      written ▸ components_behind logs ⟨given, notCurrent⟩ unslashed
    refine ⟨components, ?_⟩
    rw [Path.fileName?, components, List.getLast?_concat]
    exact if_neg notParent
  · intro disk place listed located plain short
    rw [written] at short ⊢
    obtain ⟨left, goes⟩ := Disk.locate_behind located unslashed plain short
    refine ⟨fun same => ?_, fun same => ?_, fun notCurrent notParent fits => ?_⟩
    · change logName projectRoot = _ at same
      rw [goes, same, Disk.walk, if_pos (.inr rfl), Disk.walk]
    · change logName projectRoot = _ at same
      rw [goes, same, Disk.walk, if_neg (by decide), if_pos rfl, Disk.walk]
    · exact Disk.leadsTo_behind located ⟨given, notCurrent, notParent, unslashed, plain, fits⟩ short

/-- A file system with a folder of all logs among the temporary ones. -/
def loggingDisk : Disk :=
  { root := .folder (Bytes.ascii "tmp") true (.folder logFolderName true .empty .empty) .empty }

/-- The place of the folder of all logs. -/
def loggingPlace : Disk.Place :=
  (Disk.Place.mk loggingDisk.root []).enter (Bytes.ascii "tmp") (.folder logFolderName true .empty .empty)
    |>.enter logFolderName .empty

theorem locate_logs :
    loggingDisk.locate true (Channel.temporaryFolder.join logFolderName) = .ok (.folder loggingPlace true) := by
  cbv

/-- The logs of a root with an extension, whose name begins with a dot and holds others, go to a folder of
their own. -/
theorem hidden_root_logs_below :
    let folder := usualLogFolder (Bytes.ascii "work/./.my..app/")
    folder = Bytes.ascii "/tmp/lspshim/.my." ∧
      loggingDisk.locate true folder = .ok (.vacant loggingPlace (Bytes.ascii ".my.") false) := by
  intro folder
  have name : logName (Bytes.ascii "work/./.my..app/") = Bytes.ascii ".my." := by decide +kernel
  obtain ⟨_, _, _, _, below, _⟩ := log_folder_below_unless_dotted (Bytes.ascii "work/./.my..app/")
  rw [name] at below
  obtain ⟨written, _, leads⟩ := below Channel.temporaryFolder
  have whole : folder = Bytes.ascii "/tmp/lspshim/.my." := written.trans (by decide +kernel)
  have short : folder.length < Disk.pathBound := by rw [whole]; decide +kernel
  obtain ⟨_, _, leads⟩ := leads loggingDisk loggingPlace true locate_logs (by decide) short
  exact ⟨whole, (leads (by decide) (by decide) (by decide)).settles trivial⟩

/-- A root that is called as the place above, with an empty extension: its logs go above the folder of all
logs, among all that is temporary. -/
theorem dotted_root_logs_above :
    usualLogFolder (Bytes.ascii "/work/...") = Bytes.ascii "/tmp/lspshim/.." ∧
      loggingDisk.locate true (usualLogFolder (Bytes.ascii "/work/...")) =
        .ok (.folder loggingPlace.above true) ∧
      ¬ ∃ name, usualLogFolder (Bytes.ascii "/work/...") =
          Channel.temporaryFolder.join logFolderName ++ Path.slash :: name ∧
        name ≠ [] ∧ Path.slash ∉ name ∧ name ≠ Path.current ∧ name ≠ Path.parent := by
  have whole : usualLogFolder (Bytes.ascii "/work/...") = Bytes.ascii "/tmp/lspshim/.." := by decide +kernel
  rw [whole]
  refine ⟨rfl, by cbv, ?_⟩
  rintro ⟨name, written, _, _, _, notParent⟩
  have logs : Bytes.ascii "/tmp/lspshim/.." =
      Channel.temporaryFolder.join logFolderName ++ Path.slash :: Path.parent := by decide +kernel
  exact notParent (List.cons.inj (List.append_cancel_left (logs.symm.trans written))).2.symm

end Settings

end LspProxy
