import LspProxy.Proofs.Disk.Names

/-!
# The order in which folders list their entries

The order in which a folder lists its entries is the file system's own affair. Two trees are the same but
for that order if one arises from the other by exchanging neighbours, in any of their folders
(`Folder.Relisted`). Where no two entries of a folder have the same name, what has a name does not depend on
the order (`Relisted.keeps`), so a path leads to the same in both trees (`walk_alike`), and what it opens is
the same but for the order again (`openFolder_alike`).
-/
namespace LspProxy

/-- The same folder but for the order in which it, and each folder below it, lists its entries. -/
inductive Folder.Relisted : Folder → Folder → Prop
  | empty : Relisted .empty .empty
  | leaf (name : Bytes) (single : Leaf) {others others' : Folder} (relisted : Relisted others others') :
    Relisted (.leaf name single others) (.leaf name single others')
  | folder (name : Bytes) (listable : Bool) {inner inner' others others' : Folder}
    (inside : Relisted inner inner') (relisted : Relisted others others') :
    Relisted (.folder name listable inner others) (.folder name listable inner' others')
  | swap (name other : Bytes) (entry entry' : Entry) (others : Folder) :
    Relisted (cons name entry (cons other entry' others)) (cons other entry' (cons name entry others))
  | trans {first second third : Folder} (earlier : Relisted first second) (later : Relisted second third) :
    Relisted first third

/-- The same entry but for the order of what is in it. -/
inductive Entry.Relisted : Entry → Entry → Prop
  | leaf (single : Leaf) : Relisted (.leaf single) (.leaf single)
  | folder (listable : Bool) {inner inner' : Folder} (inside : inner.Relisted inner') :
    Relisted (.folder listable inner) (.folder listable inner')

namespace Folder

variable {here there : Folder} {name other : Bytes}

theorem Relisted.refl (folder : Folder) : folder.Relisted folder := by
  induction folder with
  | empty => exact .empty
  | leaf name single others inductionHypothesis => exact .leaf name single inductionHypothesis
  | folder name listable inner others inside inductionHypothesis =>
    exact .folder name listable inside inductionHypothesis

theorem Relisted.symm (relisted : here.Relisted there) : there.Relisted here := by
  induction relisted with
  | empty => exact .empty
  | leaf name single _ inductionHypothesis => exact .leaf name single inductionHypothesis
  | folder name listable _ _ inside inductionHypothesis =>
    exact .folder name listable inside inductionHypothesis
  | swap name other entry entry' others => exact .swap other name entry' entry others
  | trans _ _ earlier later => exact .trans later earlier

end Folder

theorem Entry.Relisted.refl (entry : Entry) : entry.Relisted entry := by
  cases entry with
  | leaf single => exact .leaf single
  | folder listable inner => exact .folder listable (.refl inner)

theorem Entry.Relisted.trans {first second third : Entry} (earlier : first.Relisted second)
    (later : second.Relisted third) : first.Relisted third := by
  cases earlier with
  | leaf single => exact later
  | folder listable inside =>
    cases later with
    | folder _ inside' => exact .folder listable (inside.trans inside')

/-- What is seen of a name in one order and in another. -/
inductive Seen : Option Entry → Option Entry → Prop
  | none : Seen none none
  | some {entry entry' : Entry} (relisted : entry.Relisted entry') : Seen (some entry) (some entry')

namespace Seen

variable {first second third : Option Entry}

theorem refl (sight : Option Entry) : Seen sight sight := by
  cases sight with
  | none => exact .none
  | some entry => exact .some (.refl entry)

theorem trans (earlier : Seen first second) (later : Seen second third) : Seen first third := by
  cases earlier with
  | none => exact later
  | some relisted =>
    cases later with
    | some relisted' => exact .some (relisted.trans relisted')

theorem eq_none_iff (seen : Seen first second) : first = .none ↔ second = .none := by
  cases seen <;> simp

end Seen

namespace Folder

variable {here there : Folder} {name other : Bytes}

theorem find?_cons (name other : Bytes) (entry : Entry) (others : Folder) :
    (cons name entry others).find? other = if name = other then some entry else others.find? other := by
  by_cases same : name = other
  · rw [if_pos same, ← same, find?_cons_self]
  · rw [if_neg same, find?_cons_of_ne same]

/-- A tree with one more entry is well named if what is in the entry is. -/
theorem wellNamed_cons {entry : Entry} {others : Folder} :
    (cons name entry others).WellNamed ↔
      Path.IsName name ∧ others.find? name = none ∧
        (∀ listable inner, entry = .folder listable inner → inner.WellNamed) ∧ others.WellNamed := by
  cases entry with
  | leaf single => simp [cons, WellNamed]
  | folder listable inner => simp [cons, WellNamed]

/-- Another order keeps a tree well named, and a name leads to the same in it. -/
theorem Relisted.keeps (relisted : here.Relisted there) (named : here.WellNamed) :
    there.WellNamed ∧ ∀ name, Seen (here.find? name) (there.find? name) := by
  induction relisted with
  | empty => exact ⟨named, fun name => .none⟩
  | leaf first single relisted inductionHypothesis =>
    obtain ⟨isName, fresh, others⟩ := named
    obtain ⟨others', seen⟩ := inductionHypothesis others
    refine ⟨⟨isName, (seen first).eq_none_iff.mp fresh, others'⟩, fun name => ?_⟩
    rw [find?, find?]
    split
    · exact .refl _
    · exact seen name
  | folder first listable inside relisted inside' inductionHypothesis =>
    obtain ⟨isName, fresh, inner, others⟩ := named
    obtain ⟨others', seen⟩ := inductionHypothesis others
    refine ⟨⟨isName, (seen first).eq_none_iff.mp fresh, (inside' inner).1, others'⟩, fun name => ?_⟩
    rw [find?, find?]
    split
    · exact .some (.folder listable inside)
    · exact seen name
  | swap first second entry entry' others =>
    obtain ⟨isName, fresh, inside, named⟩ := wellNamed_cons.mp named
    obtain ⟨isName', fresh', inside', others'⟩ := wellNamed_cons.mp named
    rw [find?_cons] at fresh
    have differ : first ≠ second := by
      rintro rfl
      exact absurd fresh (by simp)
    rw [if_neg differ.symm] at fresh
    constructor
    · apply wellNamed_cons.mpr
      refine ⟨isName', ?_, inside', wellNamed_cons.mpr ⟨isName, fresh, inside, others'⟩⟩
      rw [find?_cons, if_neg differ, fresh']
    · intro name
      simp only [find?_cons]
      by_cases one : first = name
      · subst one
        rw [if_pos rfl, if_neg differ.symm, if_pos rfl]
        exact .refl _
      · rw [if_neg one, if_neg one]
        exact .refl _
  | trans _ _ earlier later =>
    obtain ⟨named', seen⟩ := earlier named
    obtain ⟨named'', seen'⟩ := later named'
    exact ⟨named'', fun name => (seen name).trans (seen' name)⟩

/-- A well-named folder, and the same in another order. -/
structure Alike (here there : Folder) : Prop where
  named : here.WellNamed
  relisted : here.Relisted there

namespace Alike

theorem symm (alike : here.Alike there) : there.Alike here :=
  ⟨(alike.relisted.keeps alike.named).1, alike.relisted.symm⟩

theorem find? (alike : here.Alike there) (name : Bytes) : Seen (here.find? name) (there.find? name) :=
  (alike.relisted.keeps alike.named).2 name

/-- What is no folder is the same in every order. -/
theorem leaf (alike : here.Alike there) {single : Leaf} (found : here.find? name = some (.leaf single)) :
    there.find? name = some (.leaf single) := by
  have seen := alike.find? name
  rw [found] at seen
  generalize there.find? name = found' at seen
  cases seen with
  | some relisted =>
    cases relisted
    rfl

/-- And a folder is a folder that can be listed as well. -/
theorem folder (alike : here.Alike there) {listable : Bool} {inner : Folder}
    (found : here.find? name = some (.folder listable inner)) :
    ∃ inner', there.find? name = some (.folder listable inner') ∧ inner.Alike inner' := by
  have named := alike.named.find? found
  have seen := alike.find? name
  rw [found] at seen
  generalize there.find? name = found' at seen
  cases seen with
  | some relisted =>
    cases relisted with
    | folder _ inside => exact ⟨_, rfl, named, inside⟩

theorem none (alike : here.Alike there) (found : here.find? name = .none) : there.find? name = .none :=
  (alike.find? name).eq_none_iff.mp found

end Alike

end Folder

namespace Disk

/-! ## Paths -/

/-- One place in trees that differ in their order. -/
inductive Place.Alike : Place → Place → Prop
  | root {root root' : Folder} (alike : root.Alike root') : Alike ⟨root, []⟩ ⟨root', []⟩
  | enter {place place' : Place} (alike : Alike place place') (name : Bytes) {inner inner' : Folder}
    (inside : inner.Alike inner') : Alike (place.enter name inner) (place'.enter name inner')

namespace Place.Alike

variable {place place' : Place}

theorem folder (alike : place.Alike place') : place.folder.Alike place'.folder := by
  cases alike with
  | root alike => exact alike
  | enter _ _ inside => exact inside

theorem above (alike : place.Alike place') : place.above.Alike place'.above := by
  cases alike with
  | root alike => exact .root alike
  | enter alike _ _ => exact alike

/-- Where a link leads from. -/
theorem origin (alike : place.Alike place') (absolute : Bool) :
    (if absolute then ⟨place.root, []⟩ else place : Place).Alike
      (if absolute then ⟨place'.root, []⟩ else place') := by
  cases absolute with
  | false => exact alike
  | true =>
    induction alike with
    | root alike => exact .root alike
    | enter _ _ _ inductionHypothesis => exact inductionHypothesis

end Place.Alike

/-- One end of a path in trees that differ in their order. -/
inductive Target.Alike : Target → Target → Prop
  | folder {place place' : Place} (alike : place.Alike place') (listable : Bool) :
    Alike (.folder place listable) (.folder place' listable)
  | leaf {place place' : Place} (alike : place.Alike place') (name : Bytes) (single : Leaf) :
    Alike (.leaf place name single) (.leaf place' name single)
  | vacant {place place' : Place} (alike : place.Alike place') (name : Bytes) (slashed : Bool) :
    Alike (.vacant place name slashed) (.vacant place' name slashed)

/-- Two answers to one question about trees that differ in their order: the same failure, or results that
differ in no more. -/
inductive Answers {α : Type} (alike : α → α → Prop) : Except Failure α → Except Failure α → Prop
  | error (failure : Failure) : Answers alike (.error failure) (.error failure)
  | ok {result result' : α} (same : alike result result') : Answers alike (.ok result) (.ok result')

/-- A path is followed in the same way whatever the order. -/
theorem walk_alike {follow listable : Bool} {links : Nat} {place place' : Place} {names : List Bytes}
    (alike : place.Alike place') :
    Answers Target.Alike (walk follow links place listable names)
      (walk follow links place' listable names) := by
  fun_induction walk follow links place listable names generalizing place' with
  | case1 links place listable =>
    rw [walk]
    exact .ok (.folder alike listable)
  | case2 links place listable name rest idle inductionHypothesis =>
    rw [walk, if_pos idle]
    exact inductionHypothesis alike
  | case3 links place listable rest counts inductionHypothesis =>
    rw [walk, if_neg counts, if_pos rfl]
    exact inductionHypothesis alike.above
  | case4 links place listable name rest counts below long =>
    rw [walk, if_neg counts, if_neg below, if_pos long]
    exact .error _
  | case5 links place listable name rest counts below short vacant last =>
    rw [walk, if_neg counts, if_neg below, if_neg short]
    simp only [alike.folder.none vacant, if_pos last]
    exact .ok (.vacant alike name _)
  | case6 links place listable name rest counts below short vacant last =>
    rw [walk, if_neg counts, if_neg below, if_neg short]
    simp only [alike.folder.none vacant, if_neg last]
    exact .error _
  | case7 links place _ name rest counts below short listable inner met inductionHypothesis =>
    obtain ⟨inner', met', inside⟩ := alike.folder.folder met
    rw [walk, if_neg counts, if_neg below, if_neg short, met']
    exact inductionHypothesis (alike.enter name inside)
  | case8 links place listable name rest counts below short target met last =>
    rw [walk, if_neg counts, if_neg below, if_neg short]
    simp only [alike.folder.leaf met, if_pos last]
    exact .ok (.leaf alike name _)
  | case9 place listable name rest counts below short target met further =>
    rw [walk, if_neg counts, if_neg below, if_neg short]
    simp only [alike.folder.leaf met, if_neg further]
    exact .error _
  | case10 place listable name rest counts below short further links met =>
    rw [walk, if_neg counts, if_neg below, if_neg short]
    simp only [alike.folder.leaf met, if_neg further, if_true]
    exact .error _
  | case11 place listable name rest counts below short target met further links given start =>
    rename_i inductionHypothesis
    rw [walk, if_neg counts, if_neg below, if_neg short]
    simp only [alike.folder.leaf met, if_neg further, if_neg given]
    exact inductionHypothesis (alike.origin _)
  | case12 links place listable name counts below short single other met =>
    rw [walk, if_neg counts, if_neg below, if_neg short]
    simp only [alike.folder.leaf met, if_true]
    exact .ok (.leaf alike name single)
  | case13 links place listable name rest counts below short single other met further =>
    rw [walk, if_neg counts, if_neg below, if_neg short]
    simp only [alike.folder.leaf met, if_neg further]
    exact .error _

/-- The same disk but for the order in which its folders list their entries. -/
structure Alike (disk disk' : Disk) : Prop where
  root : disk.root.Alike disk'.root
  working : disk'.working = disk.working
  removed : disk'.removed = disk.removed

namespace Alike

variable {disk disk' : Disk}

theorem symm (alike : disk.Alike disk') : disk'.Alike disk :=
  ⟨alike.root.symm, alike.working.symm, alike.removed.symm⟩

theorem placeOf {place place' : Place} (alike : place.Alike place') (names : List Bytes) :
    (Disk.placeOf place names).Alike (Disk.placeOf place' names) := by
  induction names generalizing place place' with
  | nil => exact alike
  | cons name names inductionHypothesis =>
    unfold Disk.placeOf
    cases found : place.folder.find? name with
    | none =>
      rw [alike.folder.none found]
      exact alike
    | some entry =>
      cases entry with
      | leaf single =>
        rw [alike.folder.leaf found]
        exact alike
      | folder listable inner =>
        obtain ⟨inner', found', inside⟩ := alike.folder.folder found
        rw [found']
        exact inductionHypothesis (alike.enter name inside)

theorem workingPlace (alike : disk.Alike disk') : disk.workingPlace.Alike disk'.workingPlace := by
  have there : (Disk.placeOf ⟨disk.root, []⟩ disk.working).Alike
      (Disk.placeOf ⟨disk'.root, []⟩ disk.working) := placeOf (.root alike.root) disk.working
  unfold Disk.workingPlace
  rw [alike.working, alike.removed]
  simp only
  split
  · exact there.enter [] ⟨trivial, .empty⟩
  · exact there

/-- A path leads to the same whatever the order. -/
theorem locate (alike : disk.Alike disk') (follow : Bool) (path : Path) :
    Answers Target.Alike (disk.locate follow path) (disk'.locate follow path) := by
  unfold Disk.locate
  split
  · exact .error _
  · split
    · exact .error _
    · split
      · exact .error _
      · apply walk_alike
        split
        · exact .root alike.root
        · exact alike.workingPlace

theorem isFolder (alike : disk.Alike disk') (path : Path) : disk'.isFolder path = disk.isFolder path := by
  unfold Disk.isFolder
  have answers := alike.locate true path
  revert answers
  generalize disk.locate true path = found
  generalize disk'.locate true path = found'
  intro answers
  cases answers with
  | error failure => rfl
  | ok same => cases same <;> rfl

/-- What a path opens is the same but for the order. -/
theorem openFolder (alike : disk.Alike disk') (path : Path) :
    Answers Folder.Alike (disk.openFolder path) (disk'.openFolder path) := by
  unfold Disk.openFolder
  have answers := alike.locate true path
  revert answers
  generalize disk.locate true path = found
  generalize disk'.locate true path = found'
  intro answers
  cases answers with
  | error failure => exact .error failure
  | ok same =>
    cases same with
    | folder alike listable =>
      cases listable with
      | true => exact .ok alike.folder
      | false => exact .error _
    | leaf alike name single => exact .error _
    | vacant alike name slashed => exact .error _

/-- The order has no part in how a path is made absolute. -/
theorem absolute (alike : disk.Alike disk') (path : Path) : disk'.absolute path = disk.absolute path := by
  unfold Disk.absolute Disk.workingPath
  rw [alike.working, alike.removed]

end Alike

end Disk

end LspProxy
