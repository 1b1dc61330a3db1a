import LspProxy.Disk.Folder

/-!
# Changing one entry of a tree

A change of a folder deep in a tree is seen at one place of the tree and nowhere else. What is seen of a
tree is the entry under each location (`Folder.sight?`), a folder being no more than a folder there. An
edit that concerns one name of one folder, and neither removes nor makes a folder, leaves all of it as it
is but for that entry (`sight?_modify?`).

Names in a folder may repeat in the type of folders, but not in a file system (`Folder.Distinct`). Only
the last statement about removing an entry depends on it: nothing then has the name any more.
-/
namespace LspProxy

/-- What is seen of an entry without looking into it. -/
def Entry.outside : Entry → Entry
  | .leaf single => .leaf single
  | .folder listable _ => .folder listable .empty

/-- The entry is a folder. -/
def Entry.isFolder : Entry → Bool
  | .leaf _ => false
  | .folder _ _ => true

namespace Folder

variable {name other : Bytes} {names : List Bytes} {edit : Folder → Folder}

/-! ## One folder -/

theorem find?_cons_of_ne (differs : other ≠ name) (entry : Entry) (others : Folder) :
    (cons other entry others).find? name = others.find? name := by
  cases entry <;> simp [cons, find?, differs]

theorem find?_put_of_ne (differs : other ≠ name) (entry : Entry) (here : Folder) :
    (here.put name entry).find? other = here.find? other := by
  induction here with
  | empty => simp [put, find?_cons_of_ne differs.symm]
  | leaf first old others inductionHypothesis =>
    by_cases same : first = name
    · subst same
      simp [put, find?_cons_of_ne differs.symm, find?, differs.symm]
    · simp [put, same, find?, inductionHypothesis]
  | folder first listable inner others _ inductionHypothesis =>
    by_cases same : first = name
    · subst same
      simp [put, find?_cons_of_ne differs.symm, find?, differs.symm]
    · simp [put, same, find?, inductionHypothesis]

theorem find?_erase_of_ne (differs : other ≠ name) (here : Folder) :
    (here.erase name).find? other = here.find? other := by
  induction here with
  | empty => rfl
  | leaf first old others inductionHypothesis =>
    by_cases same : first = name
    · subst same
      simp [erase, find?, differs.symm]
    · simp [erase, same, find?, inductionHypothesis]
  | folder first listable inner others _ inductionHypothesis =>
    by_cases same : first = name
    · subst same
      simp [erase, find?, differs.symm]
    · simp [erase, same, find?, inductionHypothesis]

/-- A new entry that is taken away again leaves nothing behind. -/
theorem erase_put {here : Folder} (vacant : here.find? name = none) (entry : Entry) :
    (here.put name entry).erase name = here := by
  induction here with
  | empty => cases entry <;> simp [put, cons, erase]
  | leaf first old others inductionHypothesis =>
    by_cases same : first = name
    · exact absurd vacant (by simp [find?, same])
    · rw [find?, if_neg same] at vacant
      simp [put, same, erase, inductionHypothesis vacant]
  | folder first listable inner others _ inductionHypothesis =>
    by_cases same : first = name
    · exact absurd vacant (by simp [find?, same])
    · rw [find?, if_neg same] at vacant
      simp [put, same, erase, inductionHypothesis vacant]

/-- No folder of the tree has two entries with one name. -/
def Distinct : Folder → Prop
  | empty => True
  | leaf name _ others => others.find? name = none ∧ others.Distinct
  | folder name _ inner others => others.find? name = none ∧ inner.Distinct ∧ others.Distinct

theorem find?_erase_self {here : Folder} (distinct : here.Distinct) (name : Bytes) :
    (here.erase name).find? name = none := by
  induction here with
  | empty => rfl
  | leaf first old others inductionHypothesis =>
    by_cases same : first = name
    · subst same
      simpa [erase] using distinct.1
    · simp [erase, same, find?, inductionHypothesis distinct.2]
  | folder first listable inner others _ inductionHypothesis =>
    by_cases same : first = name
    · subst same
      simpa [erase] using distinct.1
    · simp [erase, same, find?, inductionHypothesis distinct.2.2]

/-! ## Folders in folders -/

/-- The folder that these names lead to, each of a folder in the one before. -/
def reach? : List Bytes → Folder → Option Folder
  | [], here => some here
  | name :: names, here =>
    match here.find? name with
    | some (.folder _ inner) => inner.reach? names
    | _ => none

/-- What is seen under a name in the folder that these names lead to. -/
def sight? (last : Bytes) : List Bytes → Folder → Option Entry
  | [], here => (here.find? last).map Entry.outside
  | name :: names, here =>
    match here.find? name with
    | some (.folder _ inner) => inner.sight? last names
    | _ => none

theorem sight?_of_reach? {here inner : Folder} (reached : here.reach? names = some inner)
    (last : Bytes) : here.sight? last names = (inner.find? last).map Entry.outside := by
  induction names generalizing here with
  | nil =>
    obtain rfl := Option.some.inj reached
    rfl
  | cons name names inductionHypothesis =>
    unfold reach? at reached
    split at reached
    · rename_i listable middle found
      simp only [sight?, found]
      exact inductionHypothesis reached
    · exact absurd reached (by simp)

/-- One folder further. -/
theorem reach?_snoc {here inner below : Folder} {listable : Bool}
    (reached : here.reach? names = some inner) (found : inner.find? name = some (.folder listable below)) :
    here.reach? (names ++ [name]) = some below := by
  induction names generalizing here with
  | nil =>
    obtain rfl := Option.some.inj reached
    simp [reach?, found]
  | cons first names inductionHypothesis =>
    unfold reach? at reached
    split at reached
    · rename_i listable' middle met
      simp only [List.cons_append, reach?, met]
      exact inductionHypothesis reached
    · exact absurd reached (by simp)

theorem Distinct.find? {here inner : Folder} {listable : Bool} (distinct : here.Distinct)
    (found : here.find? name = some (.folder listable inner)) : inner.Distinct := by
  induction here with
  | empty => exact absurd found (by simp [Folder.find?])
  | leaf first old others inductionHypothesis =>
    by_cases same : first = name
    · exact absurd found (by simp [Folder.find?, same])
    · rw [Folder.find?, if_neg same] at found
      exact inductionHypothesis distinct.2 found
  | folder first listable' below others _ inductionHypothesis =>
    by_cases same : first = name
    · rw [Folder.find?, if_pos same] at found
      obtain ⟨_, rfl⟩ := Entry.folder.inj (Option.some.inj found)
      exact distinct.2.1
    · rw [Folder.find?, if_neg same] at found
      exact inductionHypothesis distinct.2.2 found

theorem Distinct.reach? {here inner : Folder} (distinct : here.Distinct)
    (reached : here.reach? names = some inner) : inner.Distinct := by
  induction names generalizing here with
  | nil =>
    obtain rfl := Option.some.inj reached
    exact distinct
  | cons name names inductionHypothesis =>
    unfold Folder.reach? at reached
    split at reached
    · rename_i listable middle found
      exact inductionHypothesis (distinct.find? found) reached
    · exact absurd reached (by simp)

/-! ## Edits -/

/-- An edit goes to the folder that the first name leads to, and to no other entry. -/
theorem modify?_cons {here inner below : Folder} {listable : Bool}
    (found : here.find? name = some (.folder listable inner))
    (edited : inner.modify? edit names = some below) :
    ∃ after, here.modify? edit (name :: names) = some after ∧
      after.find? name = some (.folder listable below) ∧
      (∀ other, other ≠ name → after.find? other = here.find? other) ∧
      (below = inner → after = here) := by
  induction here with
  | empty => exact absurd found (by simp [find?])
  | leaf first old others inductionHypothesis =>
    by_cases same : first = name
    · exact absurd found (by simp [find?, same])
    · rw [find?, if_neg same] at found
      obtain ⟨after, modified, at_, elsewhere, unchanged⟩ := inductionHypothesis found
      refine ⟨leaf first old after, by simp [modify?, modified], by simp [find?, same, at_], ?_, ?_⟩
      · intro other differs
        simp [find?, elsewhere other differs]
      · intro equal
        rw [unchanged equal]
  | folder first listable' middle others _ inductionHypothesis =>
    by_cases same : first = name
    · subst same
      simp only [find?, if_true, Option.some.injEq, Entry.folder.injEq] at found
      obtain ⟨rfl, rfl⟩ := found
      refine ⟨folder first listable' below others, by simp [modify?, edited], by simp [find?], ?_, ?_⟩
      · intro other differs
        simp [find?, differs.symm]
      · rintro rfl
        rfl
    · rw [find?, if_neg same] at found
      obtain ⟨after, modified, at_, elsewhere, unchanged⟩ := inductionHypothesis found
      refine ⟨folder first listable' middle after, by simp [modify?, same, modified],
        by simp [find?, same, at_], ?_, ?_⟩
      · intro other differs
        simp [find?, elsewhere other differs]
      · intro equal
        rw [unchanged equal]

/-- A folder that can be reached can be edited. If the edit concerns one name in it, and what has this
name is no folder before or after, then nothing else is seen to change, and under this name is what the
edit has put there. An edit that leaves the folder as it is leaves the whole tree as it is. -/
theorem sight?_modify? {before inner : Folder} (reached : before.reach? names = some inner)
    (only : ∀ other, other ≠ name → (edit inner).find? other = inner.find? other)
    (old : ∀ entry, inner.find? name = some entry → entry.isFolder = false)
    (new : ∀ entry, (edit inner).find? name = some entry → entry.isFolder = false) :
    ∃ after, before.modify? edit names = some after ∧
      after.reach? names = some (edit inner) ∧
      (∀ last path, (last, path) ≠ (name, names) → after.sight? last path = before.sight? last path) ∧
      (edit inner = inner → after = before) := by
  induction names generalizing before with
  | nil =>
    obtain rfl := Option.some.inj reached
    refine ⟨edit before, by simp [modify?], rfl, ?_, id⟩
    intro last path elsewhere
    cases path with
    | nil =>
      have differs : last ≠ name := fun same => elsewhere (by rw [same])
      simp only [sight?, only last differs]
    | cons first path =>
      by_cases same : first = name
      · subst same
        have none {here : Folder}
            (single : ∀ entry, here.find? first = some entry → entry.isFolder = false) :
            here.sight? last (first :: path) = none := by
          unfold sight?
          split
          · rename_i listable below found
            exact absurd (single _ found) (by simp [Entry.isFolder])
          · rfl
        rw [none old, none new]
      · simp only [sight?, only first same]
  | cons first names inductionHypothesis =>
    unfold reach? at reached
    split at reached
    · rename_i listable middle found
      obtain ⟨below, edited, reached', elsewhere, unchanged⟩ := inductionHypothesis reached
      obtain ⟨after, modified, at_, others, equal⟩ := modify?_cons found edited
      refine ⟨after, modified, by simp only [reach?, at_, reached'], ?_, fun same => equal (unchanged same)⟩
      intro last path away
      cases path with
      | nil =>
        by_cases same : last = first
        · subst same
          simp [sight?, at_, found, Entry.outside]
        · simp only [sight?, others last same]
      | cons next path =>
        by_cases same : next = first
        · subst same
          have inside : (last, path) ≠ (name, names) := by
            intro equal
            obtain ⟨rfl, rfl⟩ := Prod.mk.inj equal
            exact away rfl
          simp only [sight?, at_, found]
          exact elsewhere last path inside
        · simp only [sight?, others next same]
    · exact absurd reached (by simp)

/-- Two edits of one folder are one edit. -/
theorem modify?_modify? {further : Folder → Folder} {before middle : Folder}
    (modified : before.modify? edit names = some middle) :
    middle.modify? further names = before.modify? (further ∘ edit) names := by
  fun_induction modify? edit names before generalizing middle with
  | case1 here =>
    obtain rfl := Option.some.inj modified
    simp [modify?]
  | case2 name names => exact absurd modified (by simp)
  | case3 name names other entry others inductionHypothesis =>
    obtain ⟨changed, found, rfl⟩ := Option.map_eq_some_iff.mp modified
    simp [modify?, inductionHypothesis found]
  | case4 name names listable inner others inductionHypothesis =>
    obtain ⟨changed, found, rfl⟩ := Option.map_eq_some_iff.mp modified
    simp [modify?, inductionHypothesis found]
  | case5 name names other listable inner others differs inductionHypothesis =>
    obtain ⟨changed, found, rfl⟩ := Option.map_eq_some_iff.mp modified
    simp [modify?, differs, inductionHypothesis found]

/-! ## Names stay distinct -/

theorem Distinct.put {here : Folder} (distinct : here.Distinct) (name : Bytes) (single : Leaf) :
    (here.put name (.leaf single)).Distinct := by
  induction here with
  | empty => exact ⟨rfl, trivial⟩
  | leaf first old others inductionHypothesis =>
    by_cases same : first = name
    · subst same
      rw [Folder.put, if_pos rfl]
      exact distinct
    · rw [Folder.put, if_neg same]
      exact ⟨(find?_put_of_ne same _ others).trans distinct.1, inductionHypothesis distinct.2⟩
  | folder first listable inner others _ inductionHypothesis =>
    by_cases same : first = name
    · subst same
      rw [Folder.put, if_pos rfl]
      exact ⟨distinct.1, distinct.2.2⟩
    · rw [Folder.put, if_neg same]
      exact ⟨(find?_put_of_ne same _ others).trans distinct.1, distinct.2.1, inductionHypothesis distinct.2.2⟩

theorem Distinct.erase {here : Folder} (distinct : here.Distinct) (name : Bytes) :
    (here.erase name).Distinct := by
  induction here with
  | empty => exact trivial
  | leaf first old others inductionHypothesis =>
    by_cases same : first = name
    · rw [Folder.erase, if_pos same]
      exact distinct.2
    · rw [Folder.erase, if_neg same]
      exact ⟨(find?_erase_of_ne same others).trans distinct.1, inductionHypothesis distinct.2⟩
  | folder first listable inner others _ inductionHypothesis =>
    by_cases same : first = name
    · rw [Folder.erase, if_pos same]
      exact distinct.2.2
    · rw [Folder.erase, if_neg same]
      exact ⟨(find?_erase_of_ne same others).trans distinct.1, distinct.2.1, inductionHypothesis distinct.2.2⟩

/-- An edit of a folder in this one gives no entry here a new name. -/
theorem find?_modify?_eq_none {before after : Folder} {first : Bytes}
    (modified : before.modify? edit (first :: names) = some after) (vacant : before.find? other = none) :
    after.find? other = none := by
  induction before generalizing after with
  | empty => exact absurd modified (by simp [modify?])
  | leaf second single others inductionHypothesis =>
    obtain ⟨changed, found, rfl⟩ := Option.map_eq_some_iff.mp modified
    by_cases same : second = other
    · exact absurd vacant (by simp [find?, same])
    · rw [find?, if_neg same] at vacant ⊢
      exact inductionHypothesis found vacant
  | folder second listable inner others _ inductionHypothesis =>
    unfold modify? at modified
    by_cases same : second = other
    · exact absurd vacant (by simp [find?, same])
    · rw [find?, if_neg same] at vacant
      split at modified
      · obtain ⟨changed, found, rfl⟩ := Option.map_eq_some_iff.mp modified
        rwa [find?, if_neg same]
      · obtain ⟨changed, found, rfl⟩ := Option.map_eq_some_iff.mp modified
        rw [find?, if_neg same]
        exact inductionHypothesis found vacant

/-- An edit that keeps the names of a folder distinct keeps those of the whole tree so. -/
theorem Distinct.modify? {before after : Folder}
    (keeps : ∀ here : Folder, here.Distinct → (edit here).Distinct) (distinct : before.Distinct)
    (modified : before.modify? edit names = some after) : after.Distinct := by
  fun_induction Folder.modify? edit names before generalizing after with
  | case1 here =>
    obtain rfl := Option.some.inj modified
    exact keeps here distinct
  | case2 first names => exact absurd modified (by simp)
  | case3 first names second single others inductionHypothesis =>
    obtain ⟨changed, found, rfl⟩ := Option.map_eq_some_iff.mp modified
    exact ⟨find?_modify?_eq_none found distinct.1, inductionHypothesis distinct.2 found⟩
  | case4 names second listable inner others inductionHypothesis =>
    obtain ⟨changed, found, rfl⟩ := Option.map_eq_some_iff.mp modified
    exact ⟨distinct.1, inductionHypothesis distinct.2.1 found, distinct.2.2⟩
  | case5 first names second listable inner others differs inductionHypothesis =>
    obtain ⟨changed, found, rfl⟩ := Option.map_eq_some_iff.mp modified
    exact ⟨find?_modify?_eq_none found distinct.1, distinct.2.1, inductionHypothesis distinct.2.2 found⟩

/-! ## Edits of any folder

An edit may also go to a folder that no path leads to. Whatever folder it goes to, all that it touches is
one name there and what is below. -/

/-- What is seen of a tree whose first entry is a leaf. -/
theorem sight?_leaf (first : Bytes) (single : Leaf) (others : Folder) (last : Bytes) (path : List Bytes) :
    (leaf first single others).sight? last path =
      if first = path.headD last then if path = [] then some (.leaf single) else none
      else others.sight? last path := by
  cases path with
  | nil =>
    by_cases same : first = last
    · simp [sight?, find?, same, Entry.outside]
    · simp [sight?, find?, same]
  | cons next path =>
    by_cases same : first = next
    · simp [sight?, find?, same]
    · simp [sight?, find?, same]

/-- What is seen of a tree whose first entry is a folder. -/
theorem sight?_folder (first : Bytes) (listable : Bool) (inner others : Folder) (last : Bytes)
    (path : List Bytes) :
    (folder first listable inner others).sight? last path =
      if first = path.headD last then
        if path = [] then some (.folder listable .empty) else inner.sight? last path.tail
      else others.sight? last path := by
  cases path with
  | nil =>
    by_cases same : first = last
    · simp [sight?, find?, same, Entry.outside]
    · simp [sight?, find?, same]
  | cons next path =>
    by_cases same : first = next
    · simp [sight?, find?, same]
    · simp [sight?, find?, same]

/-- An edit that concerns one name is not seen anywhere but there and below. -/
theorem sight?_modify?_of_not_prefix {before after : Folder} {last : Bytes} {path : List Bytes}
    (only : ∀ here : Folder, ∀ other, other ≠ name → (edit here).find? other = here.find? other)
    (modified : before.modify? edit names = some after) (apart : ¬ names ++ [name] <+: path ++ [last]) :
    after.sight? last path = before.sight? last path := by
  fun_induction modify? edit names before generalizing after path with
  | case1 here =>
    obtain rfl := Option.some.inj modified
    cases path with
    | nil =>
      have differs : last ≠ name := by
        rintro rfl
        exact apart (List.prefix_refl _)
      simp only [sight?, only here last differs]
    | cons next path =>
      have differs : next ≠ name := by
        rintro rfl
        exact apart ⟨path ++ [last], rfl⟩
      simp only [sight?, only here next differs]
  | case2 first names => exact absurd modified (by simp)
  | case3 first names other single others inductionHypothesis =>
    obtain ⟨changed, found, rfl⟩ := Option.map_eq_some_iff.mp modified
    rw [sight?_leaf, sight?_leaf, inductionHypothesis found apart]
  | case4 names first listable inner others inductionHypothesis =>
    obtain ⟨changed, found, rfl⟩ := Option.map_eq_some_iff.mp modified
    rw [sight?_folder, sight?_folder]
    cases path with
    | nil => rfl
    | cons next path =>
      by_cases same : first = next
      · subst same
        have inside : ¬ names ++ [name] <+: path ++ [last] := by
          intro begins
          exact apart (List.cons_prefix_cons.mpr ⟨rfl, begins⟩)
        rw [List.tail_cons, inductionHypothesis found inside]
      · rw [List.headD_cons, if_neg same, if_neg same]
  | case5 first names other listable inner others differs inductionHypothesis =>
    obtain ⟨changed, found, rfl⟩ := Option.map_eq_some_iff.mp modified
    rw [sight?_folder, sight?_folder, inductionHypothesis found apart]

/-- Nothing is below what is no folder. -/
theorem sight?_eq_none_below {here : Folder} {last : Bytes} {path : List Bytes}
    (alone : ∀ entry, here.sight? name names = some entry → entry.isFolder = false)
    (below : names ++ [name] <+: path ++ [last]) (further : (last, path) ≠ (name, names)) :
    here.sight? last path = none := by
  induction names generalizing here path with
  | nil =>
    cases path with
    | nil =>
      obtain ⟨rfl, _⟩ := List.cons_prefix_cons.mp below
      exact absurd rfl further
    | cons next path =>
      obtain ⟨rfl, _⟩ := List.cons_prefix_cons.mp below
      unfold sight?
      split
      · rename_i listable inner found
        exact absurd (alone (.folder listable .empty) (by simp [sight?, found, Entry.outside]))
          (by simp [Entry.isFolder])
      · rfl
  | cons first names inductionHypothesis =>
    cases path with
    | nil =>
      obtain ⟨_, rest⟩ := List.cons_prefix_cons.mp below
      exact absurd (List.prefix_nil.mp rest) (by simp)
    | cons next path =>
      obtain ⟨rfl, rest⟩ := List.cons_prefix_cons.mp below
      unfold sight?
      split
      · rename_i listable inner found
        refine inductionHypothesis (fun entry seen => alone entry ?_) rest ?_
        · simp only [sight?, found]
          exact seen
        · intro same
          obtain ⟨rfl, rfl⟩ := Prod.mk.inj same
          exact further rfl
      · rfl

end Folder

end LspProxy
