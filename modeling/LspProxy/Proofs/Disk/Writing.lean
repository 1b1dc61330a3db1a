import LspProxy.Proofs.Disk.Persistence

/-!
# What writing to one file leaves alone

Bytes are added at the end of the file that a path leads to, which may have to be made first, along with the
folders on the way to it. What is seen of this is the one entry where the path ends, its spot. So a path from
the root that ends elsewhere reads as it did before (`append_beside`), and the path written to ends where it
did, in the file with the bytes added (`append_regular`).

Making folders and files where there were none is seen by more paths, since a path may lead through a folder
that has just been made. But one that has led to a leaf before still leads to the same leaf (`Grown`).
-/
namespace LspProxy

/-- What reading a leaf gives, if it can be read. -/
def Leaf.content? : Leaf → Option Bytes
  | .file content _ => some content
  | .device _ => some []
  | .link _ | .socket _ => none

namespace Disk

/-- The location and the name at which something can be read or written, be it there or not. -/
def Target.spot? : Target → Option (List Bytes × Bytes)
  | .leaf place name _ | .vacant place name false => some (place.location, name)
  | .folder _ _ | .vacant _ _ true => none

/-- The spot that a path leads to. -/
def spot? (disk : Disk) (path : Path) : Option (List Bytes × Bytes) :=
  match disk.locate true path with
  | .ok target => target.spot?
  | .error _ => none

/-- What is written to the first path does not come to where the second leads. -/
def Beside (disk : Disk) (path document : Path) : Prop :=
  ∀ spot, disk.spot? path = some spot → disk.spot? document ≠ some spot

/-- A path can be read in both file systems or in neither, and with one content. -/
def ReadsAlike (disk disk' : Disk) (path : Path) : Prop :=
  ∀ content, disk'.read path = .ok content ↔ disk.read path = .ok content

theorem Target.endsAt_iff {target : Target} {name : Bytes} {location : List Bytes} :
    target.EndsAt name location ↔ target.spot? = some (location, name) := by
  rcases target with ⟨place, listable⟩ | ⟨place, last, single⟩ | ⟨place, last, _ | _⟩
  · simp [EndsAt, spot?]
  · simp [EndsAt, spot?, and_comm]
  · simp [EndsAt, spot?, and_comm]
  · simp [EndsAt, spot?]

theorem spot?_eq_some_iff {disk : Disk} {path : Path} {name : Bytes} {location : List Bytes} :
    disk.spot? path = some (location, name) ↔
      ∃ target, disk.locate true path = .ok target ∧ target.EndsAt name location := by
  unfold spot?
  cases disk.locate true path with
  | error failure => simp
  | ok target => simp [Target.endsAt_iff]

theorem Place.spot?_settle (place : Place) (name : Bytes) :
    ∃ target, place.settle name = .ok target ∧ target.spot? = some (place.location, name) := by
  unfold settle
  split
  · exact ⟨_, rfl, rfl⟩
  · exact ⟨_, rfl, rfl⟩

variable {disk disk' after : Disk} {path document : Path} {bytes content : Bytes} {place : Place} {name : Bytes}

/-- Reading is reading the leaf that the path leads to. -/
theorem read_eq_ok_iff :
    disk.read path = .ok content ↔
      ∃ place name single, disk.locate true path = .ok (.leaf place name single) ∧
        single.content? = some content := by
  unfold read
  constructor
  · intro found
    split at found
    · exact absurd found (by simp)
    · exact absurd found (by simp)
    · exact absurd found (by simp)
    · rename_i place name single located
      refine ⟨place, name, single, located, ?_⟩
      cases single with
      | file content' executable => exact congrArg some (Except.ok.inj found)
      | device device => exact congrArg some (Except.ok.inj found)
      | link target => exact absurd found (by simp)
      | socket identity => exact absurd found (by simp)
  · rintro ⟨place, name, single, located, held⟩
    rw [located]
    cases single with
    | file content' executable => exact congrArg _ (Option.some.inj held)
    | device device => exact congrArg _ (Option.some.inj held)
    | link target => exact absurd held (by simp [Leaf.content?])
    | socket identity => exact absurd held (by simp [Leaf.content?])

theorem regular?_eq_some_iff :
    disk.regular? path = some content ↔
      ∃ place name executable, disk.locate true path = .ok (.leaf place name (.file content executable)) := by
  unfold regular?
  constructor
  · intro held
    split at held
    · rename_i place name content' executable found
      obtain rfl := Option.some.inj held
      exact ⟨place, name, executable, found⟩
    · exact absurd held (by simp)
  · rintro ⟨place, name, executable, found⟩
    rw [found]

/-- A path from the root does not end below an empty name. -/
theorem nameless_not_mem_spot {location : List Bytes} (absolute : path.isAbsolute = true)
    (led : disk.spot? path = some (location, name)) : [] ∉ location := by
  obtain ⟨target, found, ends⟩ := spot?_eq_some_iff.mp led
  rw [locate_eq_walk found, if_pos absolute] at found
  have named := walk_named (by simp [Place.location]) found
  cases target with
  | folder place listable => exact absurd ends id
  | leaf place last single => exact ends.2 ▸ named
  | vacant place last slashed => exact ends.2.1 ▸ named

/-- A path without an origin ends below one, if it can be written to. -/
theorem nameless_mem_spot {location : List Bytes} (stays : disk.origin? path = none)
    (led : disk.spot? path = some (location, name)) : [] ∈ location := by
  obtain ⟨target, found, ends⟩ := spot?_eq_some_iff.mp led
  obtain ⟨removed, noLeaf⟩ := locate_stays stays found
  cases target with
  | folder place listable => exact absurd ends id
  | leaf place last single => exact absurd rfl (noLeaf _ _ _)
  | vacant place last slashed => exact ends.2.1 ▸ removed.nameless

/-- A path from the root that can be read is read as before in a tree that keeps what it leads to. -/
theorem read_keeps {apart : Bytes → List Bytes → Prop} (keeps : Keeps apart disk.root disk'.root)
    (absolute : path.isAbsolute = true) (read : disk.read path = .ok content)
    (kept : ∀ location name, disk.spot? path = some (location, name) → ¬ apart name location) :
    disk'.read path = .ok content := by
  obtain ⟨place, name, single, found, held⟩ := read_eq_ok_iff.mp read
  have elsewhere : ¬ apart name place.location :=
    kept place.location name (spot?_eq_some_iff.mpr ⟨_, found, rfl, rfl⟩)
  have found' := found
  rw [locate_eq_walk found, if_pos absolute] at found'
  have roots : Matches disk.root disk'.root ⟨disk.root, []⟩ ⟨disk'.root, []⟩ :=
    ⟨.root _, .root _, rfl, rfl, rfl⟩
  obtain ⟨final, there, _⟩ := walk_keeps keeps roots (by simp [Place.location]) found' elsewhere
  refine read_eq_ok_iff.mpr ⟨final, name, single, ?_, held⟩
  rw [locate_eq_walk found, if_pos absolute, there]

/-! ## Additions -/

/-- All that was there is there still. -/
structure Grown (before after : Disk) : Prop where
  root : KeepsAll before.root after.root
  working : after.working = before.working
  removed : after.removed = before.removed

theorem Grown.refl (disk : Disk) : Grown disk disk := ⟨.refl _, rfl, rfl⟩

theorem Grown.trans {before middle after : Disk} (first : Grown before middle) (second : Grown middle after) :
    Grown before after :=
  ⟨first.root.trans second.root, second.working.trans first.working, second.removed.trans first.removed⟩

/-- What could be read before is read as before. -/
theorem Grown.read (grown : Grown disk after) (absolute : path.isAbsolute = true)
    (read : disk.read path = .ok content) : after.read path = .ok content :=
  read_keeps grown.root absolute read (fun _ _ _ => id)

/-- Where a path ends at nothing, nothing is seen. -/
theorem vacant_unseen {follow slashed : Bool}
    (found : disk.locate follow path = .ok (.vacant place name slashed)) :
    disk.root.sight? name place.location = none ∨ [] ∈ place.location := by
  cases starts : disk.origin? path with
  | none => exact .inr (locate_stays starts found).1.nameless
  | some start =>
    obtain ⟨⟨sound, root⟩, vacant⟩ := locate_sound_of_origin starts found
    left
    rw [← root, Matches.sight? sound, vacant]
    rfl

theorem change_fields {edit : Folder → Folder} (changed : disk.change place edit = .ok after) :
    disk.root.modify? edit place.location = some after.root ∧ after.working = disk.working ∧
      after.removed = disk.removed := by
  unfold change at changed
  split at changed
  · rename_i root modified
    obtain rfl := Except.ok.inj changed
    exact ⟨modified, rfl, rfl⟩
  · exact absurd changed (by simp)

/-- To put something where nothing was is an addition. -/
theorem change_grown {edit : Folder → Folder}
    (only : ∀ here : Folder, ∀ other, other ≠ name → (edit here).find? other = here.find? other)
    (vacant : disk.root.sight? name place.location = none ∨ [] ∈ place.location)
    (changed : disk.change place edit = .ok after) : Grown disk after := by
  obtain ⟨modified, working, removed⟩ := change_fields changed
  exact ⟨keepsAll_modify? only modified vacant, working, removed⟩

theorem makeFolder_grown (made : disk.makeFolder path = .ok after) : Grown disk after := by
  unfold makeFolder at made
  split at made
  · exact absurd made (by simp)
  · rename_i place name slashed found
    exact change_grown (fun here other differs => Folder.find?_put_of_ne differs _ here)
      (vacant_unseen found) made
  · exact absurd made (by simp)

/-- Making folders on the way to one is an addition, however far it comes. -/
theorem makeFolders_grown (disk : Disk) (paths : List Path) : Grown disk (disk.makeFolders paths).2 := by
  induction paths generalizing disk with
  | nil => exact .refl disk
  | cons path above inductionHypothesis =>
    have higher := inductionHypothesis disk
    unfold makeFolders
    split
    · rename_i after made
      exact makeFolder_grown made
    · split
      · split
        · rename_i between raised
          rw [raised] at higher
          exact higher
        · rename_i between raised
          rw [raised] at higher
          split
          · rename_i after made
            exact higher.trans (makeFolder_grown made)
          · exact higher
      · exact .refl disk

/-! ## Writing -/

/-- Two changes at one place are one change. -/
theorem change_change {first second : Folder → Folder} {middle : Disk}
    (earlier : disk.change place first = .ok middle) (later : middle.change place second = .ok after) :
    disk.change place (second ∘ first) = .ok after := by
  unfold change at earlier
  split at earlier
  · rename_i root modified
    obtain rfl := Except.ok.inj earlier
    unfold change at later ⊢
    rw [← Folder.modify?_modify? modified]
    exact later
  · exact absurd earlier (by simp)

/-- What stands where a path is written to: a file, or nothing yet. -/
def Target.Holds (place : Place) (name content : Bytes) (executable : Bool) (target : Target) : Prop :=
  target = .leaf place name (.file content executable) ∨
    target = .vacant place name false ∧ content = [] ∧ executable = false

theorem Target.Holds.endsAt {target : Target} {executable : Bool}
    (holds : target.Holds place name content executable) : target.EndsAt name place.location := by
  rcases holds with rfl | ⟨rfl, _, _⟩
  · exact ⟨rfl, rfl⟩
  · exact ⟨rfl, rfl, rfl⟩

/-- Writing to a path changes nothing, or one entry: the one that the path leads to is the file that was
there, or a new one, with the bytes added. -/
theorem append_cases (appended : disk.append path bytes = .ok after) :
    after = disk ∨
      ∃ target place name content executable edit,
        disk.locate true path = .ok target ∧ target.Holds place name content executable ∧
        disk.change place edit = .ok after ∧
        (∀ here : Folder, (edit here).find? name = some (.leaf (.file (content ++ bytes) executable))) ∧
        ∀ here : Folder, ∀ other, other ≠ name → (edit here).find? other = here.find? other := by
  have put_find (here : Folder) (name written : Bytes) (executable : Bool) :
      (here.put name (.leaf (.file written executable))).find? name =
        some (.leaf (.file written executable)) := Folder.find?_put_self _ _ _
  unfold append at appended
  cases opened : disk.openFile path with
  | error failure => exact absurd appended (by simp [opened, bind, Except.bind])
  | ok found =>
    obtain ⟨opening, middle⟩ := found
    simp only [opened, bind, Except.bind] at appended
    unfold openFile at opened
    split at opened
    · exact absurd opened (by simp)
    · exact absurd opened (by simp)
    · exact absurd opened (by simp)
    · rename_i place name found
      cases changed : disk.change place (·.put name (.leaf (.file [] false))) with
      | error failure => exact absurd opened (by simp [changed, bind, Except.bind])
      | ok made =>
        simp only [changed, bind, Except.bind, pure, Except.pure, Except.ok.injEq, Prod.mk.injEq] at opened
        obtain ⟨rfl, rfl⟩ := opened
        refine .inr ⟨_, place, name, [], false, _, found, .inr ⟨rfl, rfl, rfl⟩,
          change_change changed appended, fun here => put_find _ _ _ _, ?_⟩
        intro here other differs
        rw [Function.comp_apply, Folder.find?_put_of_ne differs, Folder.find?_put_of_ne differs]
    · rename_i place name single found
      split at opened
      · rename_i content executable
        obtain ⟨rfl, rfl⟩ := Prod.mk.inj (Except.ok.inj opened)
        exact .inr ⟨_, place, name, content, executable, _, found, .inl rfl, appended,
          fun here => put_find _ _ _ _, fun here other differs => Folder.find?_put_of_ne differs _ here⟩
      · exact absurd opened (by simp)
      · exact absurd opened (by simp)
      · obtain ⟨rfl, rfl⟩ := Prod.mk.inj (Except.ok.inj opened)
        left
        cases ‹Device› with
        | void => exact (Except.ok.inj appended).symm
        | full =>
          simp only at appended
          split at appended
          · exact (Except.ok.inj appended).symm
          · exact absurd appended (by simp)

/-- A change of the entry that a path leads to, where it is in the tree: this entry is an end before and
after, and nothing else is seen to change. -/
theorem change_differs {target : Target} {executable : Bool} {written : Leaf} {edit : Folder → Folder}
    (starts : disk.origin? path ≠ none) (found : disk.locate true path = .ok target)
    (holds : target.Holds place name content executable) (changed : disk.change place edit = .ok after)
    (ends : Ending (some (.leaf written)))
    (there : ∀ here : Folder, (edit here).find? name = some (.leaf written))
    (only : ∀ here : Folder, ∀ other, other ≠ name → (edit here).find? other = here.find? other) :
    DifferAt name place.location disk.root after.root ∧
      ∃ final : Place, final.location = place.location ∧
        after.locate true path = .ok (.leaf final name written) := by
  obtain ⟨⟨start, names⟩, starts'⟩ := Option.ne_none_iff_exists'.mp starts
  have sound := locate_sound_of_origin starts' found
  obtain ⟨⟨sound, root⟩, was⟩ : (place.Sound ∧ place.root = disk.root) ∧
      Ending (place.folder.find? name) := by
    rcases holds with rfl | ⟨rfl, _, _⟩
    · exact ⟨sound.1, by rw [sound.2]; trivial⟩
    · exact ⟨sound.1, by rw [sound.2]; trivial⟩
  obtain ⟨modified, working, removed⟩ := change_fields changed
  obtain ⟨root', modified', differ, reached, _⟩ :=
    modify?_differs sound (only place.folder) was (by rw [there]; exact ends)
  rw [root] at modified' differ
  obtain rfl : after.root = root' := Option.some.inj (modified.symm.trans modified')
  obtain ⟨final, sound', root', location, settled⟩ :=
    locate_settles differ working removed starts found holds.endsAt
  refine ⟨differ, final, location, ?_⟩
  have reached' := sound'.reach
  rw [root', location, reached] at reached'
  rw [settled, Place.settle, ← Option.some.inj reached', there]

/-- A path from the root that does not end where two trees differ does not end there in either. -/
theorem spot?_ne_of_differ {location : List Bytes} (absolute : document.isAbsolute = true)
    (differ : DifferAt name location disk.root after.root)
    (away : disk.spot? document ≠ some (location, name)) : after.spot? document ≠ some (location, name) := by
  intro led
  obtain ⟨target, found, ends⟩ := spot?_eq_some_iff.mp led
  obtain ⟨final, _, _, there, settled⟩ := locate_matches absolute differ.symm found ends
  obtain ⟨settles, same, led'⟩ := final.spot?_settle name
  apply away
  unfold spot?
  rw [settled, same]
  exact led'.trans (by rw [there])

/-- It reads alike in both. -/
theorem readsAlike_of_differ {location : List Bytes} (absolute : document.isAbsolute = true)
    (differ : DifferAt name location disk.root after.root)
    (away : disk.spot? document ≠ some (location, name)) : disk.ReadsAlike after document := by
  have away' := spot?_ne_of_differ absolute differ away
  refine fun content => ⟨fun read => ?_, fun read => ?_⟩
  · refine read_keeps differ.symm.keeps absolute read (fun location' name' led same => away' ?_)
    obtain ⟨rfl, rfl⟩ := Prod.mk.inj same
    exact led
  · refine read_keeps differ.keeps absolute read (fun location' name' led same => away ?_)
    obtain ⟨rfl, rfl⟩ := Prod.mk.inj same
    exact led

/-- What is written to a path does not change what is read beside it, nor that this is beside it. -/
theorem append_beside (absolute : document.isAbsolute = true) (beside : disk.Beside path document)
    (appended : disk.append path bytes = .ok after) :
    disk.ReadsAlike after document ∧ after.Beside path document := by
  rcases append_cases appended with rfl | ⟨target, place, name, content, executable, edit, found, holds,
    changed, there, only⟩
  · exact ⟨fun _ => Iff.rfl, beside⟩
  obtain ⟨modified, working, removed⟩ := change_fields changed
  by_cases starts : disk.origin? path = none
  · -- the path stays in the removed working folder, so nothing is written that a document could lead to
    have nameless : [] ∈ place.location :=
      nameless_mem_spot starts (spot?_eq_some_iff.mpr ⟨target, found, holds.endsAt⟩)
    have back : KeepsAll after.root disk.root :=
      ⟨fun last path' entry named _ seen => (sight?_modify?_nameless only modified nameless named) ▸ seen,
        fun _ _ apart => apart.elim⟩
    refine ⟨fun content => ⟨fun read => read_keeps back absolute read (fun _ _ _ => id),
      fun read => (change_grown only (.inr nameless) changed).read absolute read⟩, ?_⟩
    rintro ⟨location, last⟩ led led'
    exact nameless_not_mem_spot absolute led'
      (nameless_mem_spot (origin?_eq_none_of_removed removed starts) led)
  · obtain ⟨differ, final, location, located⟩ :=
      change_differs starts found holds changed (by trivial) there only
    have spot : disk.spot? path = some (place.location, name) :=
      spot?_eq_some_iff.mpr ⟨target, found, holds.endsAt⟩
    have spot' : after.spot? path = some (place.location, name) :=
      spot?_eq_some_iff.mpr ⟨_, located, rfl, location⟩
    have away : disk.spot? document ≠ some (place.location, name) := beside _ spot
    refine ⟨readsAlike_of_differ absolute differ away, ?_⟩
    intro led same
    obtain rfl := Option.some.inj (spot'.symm.trans same)
    exact spot?_ne_of_differ absolute differ away

/-- Bytes written to a path that leads to a file are added to it, and the path leads to it still. -/
theorem append_regular (held : disk.regular? path = some content) (bytes : Bytes) :
    ∃ after, disk.append path bytes = .ok after ∧ after.regular? path = some (content ++ bytes) := by
  obtain ⟨place, name, executable, found⟩ := regular?_eq_some_iff.mp held
  obtain ⟨starts, ⟨sound, root⟩, met⟩ := locate_leaf_sound found
  have there (here : Folder) := Folder.find?_put_self name (.leaf (.file (content ++ bytes) executable)) here
  have only (here : Folder) (other : Bytes) (differs : other ≠ name) :=
    Folder.find?_put_of_ne differs (.leaf (.file (content ++ bytes) executable)) here
  obtain ⟨root', modified, _⟩ := modify?_differs sound (only place.folder) (by rw [met]; trivial)
    (by rw [there]; trivial)
  rw [root] at modified
  have changed := change_eq modified
  obtain ⟨_, final, _, located⟩ :=
    change_differs starts found (.inl rfl) changed (by trivial) there only
  refine ⟨_, ?_, by rw [regular?, located]⟩
  unfold append openFile
  rw [found]
  exact changed

/-- What the file at a path holds when it has been opened for writing: what was in it, or nothing. -/
theorem append_nil_held (opened : disk.append path [] = .ok after) (held : after.regular? path = some content) :
    content = (disk.regular? path).getD [] := by
  rcases append_cases opened with rfl | ⟨target, place, name, old, executable, edit, found, holds, changed,
    there, only⟩
  · rw [held]
    rfl
  · obtain ⟨final, last, executable', located⟩ := regular?_eq_some_iff.mp held
    have removed : after.removed = disk.removed := (change_fields changed).2.2
    -- a path that stays in the removed working folder leads to no file
    have starts : disk.origin? path ≠ none := fun stays =>
      (locate_leaf_sound located).1 (origin?_eq_none_of_removed removed stays)
    obtain ⟨_, _, _, located'⟩ := change_differs starts found holds changed (by trivial) there only
    obtain ⟨_, _, same⟩ := Target.leaf.inj (Except.ok.inj (located.symm.trans located'))
    rw [List.append_nil] at same
    obtain ⟨rfl, _⟩ := Leaf.file.inj same
    rcases holds with rfl | ⟨rfl, rfl, _⟩
    · rw [regular?, found]
      rfl
    · rw [regular?, found]
      rfl

/-- Opening a file for writing, and writing nothing, is an addition. -/
theorem append_nil_grown (opened : disk.append path [] = .ok after) : Grown disk after := by
  rcases append_cases opened with rfl | ⟨target, place, name, content, executable, edit, found, holds,
    changed, there, only⟩
  · exact .refl _
  obtain ⟨modified, working, removed⟩ := change_fields changed
  rcases holds with rfl | ⟨rfl, rfl, rfl⟩
  · obtain ⟨differ, final, location, located⟩ :=
      change_differs (locate_leaf_sound found).1 found (.inl rfl) changed (by trivial) there only
    refine ⟨⟨fun last path' entry named _ seen => ?_, fun _ _ apart => apart.elim⟩, working, removed⟩
    by_cases same : (last, path') = (name, place.location)
    · obtain ⟨rfl, rfl⟩ := Prod.mk.inj same
      have seen' := locate_leaf_seen located
      rw [List.append_nil, location] at seen'
      exact seen'.trans ((locate_leaf_seen found).symm.trans seen)
    · exact (differ.elsewhere last path' same).trans seen
  · exact change_grown only (vacant_unseen found) changed

end Disk

end LspProxy
