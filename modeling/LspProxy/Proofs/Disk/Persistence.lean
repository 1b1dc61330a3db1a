import LspProxy.Proofs.Disk.Places

/-!
# What paths go on leading to

A file system grows and its files are written to, and most paths do not notice. One tree keeps what another
shows, apart from entries at which paths end (`Keeps`). A path that starts at the root and leads to a leaf,
not to one set apart, then leads to it in both trees (`walk_keeps`). If something is only added to a tree, it
keeps all that was there; if one file is written to, each tree keeps what the other shows, but for that file.

No entry is reached by an empty name, so nothing is said about what is below one. This is where a removed
working folder is: it has no name, a path that starts there and does not climb stays there (`Path.climb?`),
and whatever is put there is seen by no path from the root.
-/
namespace LspProxy

/-- What is left of the names behind the first climb, if nothing has to be looked up before it. -/
def Path.climb? : List Bytes → Option (List Bytes)
  | [] => none
  | name :: rest =>
    if name = [] ∨ name = current then climb? rest else if name = parent then some rest else none

namespace Disk

/-- All that is seen in one tree is seen in the other, apart from ends. -/
structure Keeps (apart : Bytes → List Bytes → Prop) (before after : Folder) : Prop where
  shown : ∀ last path entry, [] ∉ path → ¬ apart last path → before.sight? last path = some entry →
    after.sight? last path = some entry
  ends : ∀ last path, apart last path → Ending (before.sight? last path)

/-- The tree keeps everything. -/
abbrev KeepsAll (before after : Folder) : Prop := Keeps (fun _ _ => False) before after

theorem KeepsAll.refl (root : Folder) : KeepsAll root root where
  shown := fun _ _ _ _ _ seen => seen
  ends := fun _ _ apart => apart.elim

theorem KeepsAll.trans {before middle after : Folder} (first : KeepsAll before middle)
    (second : KeepsAll middle after) : KeepsAll before after where
  shown := fun last path entry named apart seen =>
    second.shown last path entry named apart (first.shown last path entry named apart seen)
  ends := fun _ _ apart => apart.elim

/-- Two trees that differ at one end keep all but this of one another. -/
theorem DifferAt.symm {name : Bytes} {location : List Bytes} {before after : Folder}
    (differ : DifferAt name location before after) : DifferAt name location after before where
  elsewhere := fun last path away => (differ.elsewhere last path away).symm
  ends := differ.ends'
  ends' := differ.ends

theorem DifferAt.keeps {name : Bytes} {location : List Bytes} {before after : Folder}
    (differ : DifferAt name location before after) :
    Keeps (fun last path => (last, path) = (name, location)) before after where
  shown := fun last path _ _ away seen => (differ.elsewhere last path away).trans seen
  ends := by
    rintro last path same
    obtain ⟨rfl, rfl⟩ := Prod.mk.inj same
    exact differ.ends

/-- Below an empty name nothing is done that is seen anywhere else. -/
theorem sight?_modify?_nameless {edit : Folder → Folder} {name last : Bytes} {location path : List Bytes}
    {before after : Folder}
    (only : ∀ here : Folder, ∀ other, other ≠ name → (edit here).find? other = here.find? other)
    (modified : before.modify? edit location = some after) (nameless : [] ∈ location) (named : [] ∉ path) :
    after.sight? last path = before.sight? last path := by
  refine Folder.sight?_modify?_of_not_prefix only modified fun touched => named ?_
  rcases List.prefix_concat_iff.mp touched with same | below
  · exact (List.append_inj_left' same rfl) ▸ nameless
  · exact below.subset (List.mem_append_left _ nameless)

/-- Where nothing stood and something was put, everything is kept. -/
theorem keepsAll_modify? {edit : Folder → Folder} {name : Bytes} {location : List Bytes}
    {before after : Folder}
    (only : ∀ here : Folder, ∀ other, other ≠ name → (edit here).find? other = here.find? other)
    (modified : before.modify? edit location = some after)
    (vacant : before.sight? name location = none ∨ [] ∈ location) : KeepsAll before after where
  shown := by
    intro last path entry named _ seen
    rcases vacant with vacant | nameless
    · by_cases touched : location ++ [name] <+: path ++ [last]
      · by_cases same : (last, path) = (name, location)
        · obtain ⟨rfl, rfl⟩ := Prod.mk.inj same
          exact absurd (seen.symm.trans vacant) (by simp)
        · have alone : ∀ entry, before.sight? name location = some entry → entry.isFolder = false := by
            simp [vacant]
          have nothing := Folder.sight?_eq_none_below alone touched same
          exact absurd (seen.symm.trans nothing) (by simp)
      · rw [Folder.sight?_modify?_of_not_prefix only modified touched]
        exact seen
    · rw [sight?_modify?_nameless only modified nameless named]
      exact seen
  ends := fun _ _ apart => apart.elim

/-! ## Paths from the root -/

variable {apart : Bytes → List Bytes → Prop} {before after : Folder}

/-- What is met in one tree is met in the other, if it is not set apart or is no end. -/
theorem Matches.shown {place place' : Place} (matched : Matches before after place place')
    (keeps : Keeps apart before after) (named : [] ∉ place.location) {last : Bytes} {entry : Entry}
    (found : place.folder.find? last = some entry)
    (through : ¬ apart last place.location ∨ ¬ Ending (some entry)) :
    ∃ entry', place'.folder.find? last = some entry' ∧ entry'.outside = entry.outside := by
  have seen : before.sight? last place.location = some entry.outside := by
    rw [← matched.root, Matches.sight? matched.sound, found]
    rfl
  have kept : ¬ apart last place.location := by
    rcases through with kept | goesOn
    · exact kept
    · intro set
      have ends := keeps.ends last place.location set
      rw [← matched.root, Matches.sight? matched.sound, found, ending_outside] at ends
      exact goesOn ends
  have shown := keeps.shown last place.location _ named kept seen
  rw [← matched.root', ← matched.location, Matches.sight? matched.sound'] at shown
  exact Option.map_eq_some_iff.mp shown

/-- A leaf is seen as it is. -/
theorem Entry.eq_of_outside_leaf {entry : Entry} {single : Leaf}
    (same : entry.outside = (Entry.leaf single).outside) : entry = .leaf single := by
  cases entry with
  | leaf other => exact same
  | folder listable inner => exact absurd same (by simp [Entry.outside])

theorem Matches.shown_leaf {place place' : Place} (matched : Matches before after place place')
    (keeps : Keeps apart before after) (named : [] ∉ place.location) {last : Bytes} {single : Leaf}
    (found : place.folder.find? last = some (.leaf single))
    (through : ¬ apart last place.location ∨ ¬ Ending (some (.leaf single))) :
    place'.folder.find? last = some (.leaf single) := by
  obtain ⟨entry', found', same⟩ := matched.shown keeps named found through
  rw [found', Entry.eq_of_outside_leaf same]

theorem Matches.shown_folder {place place' : Place} (matched : Matches before after place place')
    (keeps : Keeps apart before after) (named : [] ∉ place.location) {last : Bytes} {listable : Bool}
    {inner : Folder} (found : place.folder.find? last = some (.folder listable inner)) :
    ∃ inner', place'.folder.find? last = some (.folder listable inner') ∧
      Matches before after (place.enter last inner) (place'.enter last inner') := by
  obtain ⟨entry', found', same⟩ := matched.shown keeps named found (.inr id)
  cases entry' with
  | leaf single => exact absurd same (by simp [Entry.outside])
  | folder listable' inner' =>
    obtain rfl : listable' = listable := (Entry.folder.inj same).1
    exact ⟨inner', found', .enter matched.sound found, .enter matched.sound' found', matched.root,
      matched.root', by rw [Place.location_enter, Place.location_enter, matched.location]⟩

/-- No empty name stands on the way above. -/
theorem Place.named_above {place : Place} (named : [] ∉ place.location) : [] ∉ place.above.location := by
  rw [Place.location_above]
  exact fun among => named ((List.dropLast_subset _) among)

theorem Place.named_enter {place : Place} (named : [] ∉ place.location) {name : Bytes}
    (counts : ¬ (name = [] ∨ name = Path.current)) (inner : Folder) :
    [] ∉ (place.enter name inner).location := by
  rw [Place.location_enter, List.mem_append, List.mem_singleton]
  rintro (among | rfl)
  · exact named among
  · exact counts (.inl rfl)

theorem Place.named_origin {place : Place} (named : [] ∉ place.location) (absolute : Bool) :
    [] ∉ (if absolute then ⟨place.root, []⟩ else place : Place).location := by
  cases absolute
  · exact named
  · simp [Place.location]

/-- A path that leads to a leaf leads there also in a tree that keeps it. -/
theorem walk_keeps (keeps : Keeps apart before after) {follow listable : Bool} {links : Nat}
    {place place' : Place} {names : List Bytes} {final : Place} {last : Bytes} {single : Leaf}
    (matched : Matches before after place place') (named : [] ∉ place.location)
    (found : walk follow links place listable names = .ok (.leaf final last single))
    (kept : ¬ apart last final.location) :
    ∃ final', walk follow links place' listable names = .ok (.leaf final' last single) ∧
      final'.location = final.location := by
  fun_induction walk follow links place listable names generalizing place' with
  | case1 links place listable => exact absurd found (by simp)
  | case2 links place listable first rest idle inductionHypothesis =>
    rw [walk, if_pos idle]
    exact inductionHypothesis matched named found
  | case3 links place listable rest counts inductionHypothesis =>
    rw [walk, if_neg counts, if_pos rfl]
    exact inductionHypothesis matched.above (Place.named_above named) found
  | case4 | case5 | case6 | case9 | case10 | case13 => exact absurd found (by simp)
  | case7 links place _ first rest counts below short listable inner met inductionHypothesis =>
    obtain ⟨inner', met', entered⟩ := matched.shown_folder keeps named met
    rw [walk, if_neg counts, if_neg below, if_neg short, met']
    exact inductionHypothesis entered (Place.named_enter named counts inner) found
  | case8 links place listable first rest counts below short target met finished =>
    obtain ⟨rfl, rfl, rfl⟩ := Target.leaf.inj (Except.ok.inj found)
    rw [walk, if_neg counts, if_neg below, if_neg short, matched.shown_leaf keeps named met (.inl kept)]
    simp only [if_pos finished]
    exact ⟨place', rfl, matched.location⟩
  | case11 place listable first rest counts below short target met further left link start =>
    rename_i inductionHypothesis
    rw [walk, if_neg counts, if_neg below, if_neg short, matched.shown_leaf keeps named met (.inr id)]
    simp only [if_neg further, if_neg link]
    exact inductionHypothesis (matched.origin _) (Place.named_origin named _) found
  | case12 links place listable first counts below short other notLink met =>
    obtain ⟨rfl, rfl, rfl⟩ := Target.leaf.inj (Except.ok.inj found)
    rw [walk, if_neg counts, if_neg below, if_neg short, matched.shown_leaf keeps named met (.inl kept)]
    simp only [if_true]
    exact ⟨place', rfl, matched.location⟩

/-- The place that a path leads to, or leads to an entry of. -/
def Target.place : Target → Place
  | .folder place _ => place
  | .leaf place _ _ => place
  | .vacant place _ _ => place

/-- A path does not lead below an empty name. -/
theorem walk_named {follow listable : Bool} {links : Nat} {place : Place} {names : List Bytes}
    {target : Target} (named : [] ∉ place.location)
    (found : walk follow links place listable names = .ok target) : [] ∉ target.place.location := by
  fun_induction walk follow links place listable names with
  | case1 | case5 | case8 | case12 =>
    obtain rfl := Except.ok.inj found
    exact named
  | case2 links place listable first rest idle inductionHypothesis => exact inductionHypothesis named found
  | case3 links place listable rest counts inductionHypothesis =>
    exact inductionHypothesis (Place.named_above named) found
  | case4 | case6 | case9 | case10 | case13 => exact absurd found (by simp)
  | case7 links place _ first rest counts below short listable inner met inductionHypothesis =>
    exact inductionHypothesis (Place.named_enter named counts inner) found
  | case11 place listable first rest counts below short target met further left link start =>
    rename_i inductionHypothesis
    exact inductionHypothesis (Place.named_origin named _) found

/-! ## Paths from the working folder -/

/-- The place is a working folder that has been removed. -/
def Place.Removed (place : Place) : Prop := ∃ above : Place, place = above.enter [] .empty

theorem Place.Removed.nameless {place : Place} (removed : place.Removed) : [] ∈ place.location := by
  obtain ⟨above, rfl⟩ := removed
  rw [Place.location_enter]
  exact List.mem_append_right _ (List.mem_singleton_self _)

/-- A path that climbs out of a removed folder goes on from the place above. -/
theorem walk_climb {follow listable : Bool} {links : Nat} {place : Place} {names rest : List Bytes}
    (climbs : Path.climb? names = some rest) :
    walk follow links (place.enter [] .empty) listable names = walk follow links place true rest := by
  induction names with
  | nil => exact absurd climbs (by simp [Path.climb?])
  | cons name names inductionHypothesis =>
    unfold Path.climb? at climbs
    split at climbs
    · rename_i idle
      rw [walk, if_pos idle]
      exact inductionHypothesis climbs
    · rename_i counts
      split at climbs
      · rename_i up
        obtain rfl := Option.some.inj climbs
        rw [walk, if_neg counts, if_pos up]
        rfl
      · exact absurd climbs (by simp)

/-- A path that does not climb out of a removed folder stays there, and meets nothing. -/
theorem walk_stays {follow listable : Bool} {links : Nat} {place : Place} {names : List Bytes}
    {target : Target} (stays : Path.climb? names = none)
    (found : walk follow links (place.enter [] .empty) listable names = .ok target) :
    target.place.Removed ∧ ∀ at_ name single, target ≠ .leaf at_ name single := by
  induction names with
  | nil =>
    rw [walk] at found
    obtain rfl := Except.ok.inj found
    exact ⟨⟨place, rfl⟩, by simp⟩
  | cons name names inductionHypothesis =>
    unfold Path.climb? at stays
    split at stays
    · rename_i idle
      rw [walk, if_pos idle] at found
      exact inductionHypothesis stays found
    · rename_i counts
      split at stays
      · exact absurd stays (by simp)
      · rename_i up
        have nothing : (place.enter [] .empty).folder.find? name = none := rfl
        rw [walk, if_neg counts, if_neg up] at found
        split at found
        · exact absurd found (by simp)
        · simp only [nothing] at found
          split at found
          · obtain rfl := Except.ok.inj found
            exact ⟨⟨place, rfl⟩, by simp⟩
          · exact absurd found (by simp)

/-- Where in the tree a path starts, and the names from there; nothing if it stays in a removed working
folder. -/
def origin? (disk : Disk) (path : Path) : Option (Place × List Bytes) :=
  let working := placeOf ⟨disk.root, []⟩ disk.working
  if path.isAbsolute then some (⟨disk.root, []⟩, path.names)
  else if disk.removed then (Path.climb? path.names).map (working, ·)
  else some (working, path.names)

variable {disk disk' : Disk} {path : Path}

/-- A path with an origin is followed from there. -/
theorem walk_origin {follow : Bool} {place : Place} {names : List Bytes}
    (starts : disk.origin? path = some (place, names)) :
    walk follow linkLimit (if path.isAbsolute then ⟨disk.root, []⟩ else disk.workingPlace) true path.names =
      walk follow linkLimit place true names := by
  unfold origin? at starts
  split at starts
  · rename_i absolute
    obtain ⟨rfl, rfl⟩ := Prod.mk.inj (Option.some.inj starts)
    rw [if_pos absolute]
  · rename_i relative
    rw [if_neg relative]
    unfold workingPlace
    split at starts
    · rename_i removed
      obtain ⟨rest, climbs, same⟩ := Option.map_eq_some_iff.mp starts
      obtain ⟨rfl, rfl⟩ := Prod.mk.inj same
      simp only [if_pos removed]
      exact walk_climb climbs
    · rename_i present
      obtain ⟨rfl, rfl⟩ := Prod.mk.inj (Option.some.inj starts)
      simp only [if_neg present]

/-- A path without an origin stays in the removed folder. -/
theorem locate_stays {follow : Bool} {target : Target} (stays : disk.origin? path = none)
    (found : disk.locate follow path = .ok target) :
    target.place.Removed ∧ ∀ place name single, target ≠ .leaf place name single := by
  rw [locate_eq_walk found] at found
  unfold origin? at stays
  split at stays
  · exact absurd stays (by simp)
  · rename_i relative
    rw [if_neg relative] at found
    split at stays
    · rename_i removed
      unfold workingPlace at found
      simp only [if_pos removed] at found
      exact walk_stays (Option.map_eq_none_iff.mp stays) found
    · exact absurd stays (by simp)

theorem placeOf_sound {place : Place} (sound : place.Sound) (names : List Bytes) :
    (placeOf place names).Sound ∧ (placeOf place names).root = place.root := by
  induction names generalizing place with
  | nil => exact ⟨sound, rfl⟩
  | cons name names inductionHypothesis =>
    unfold placeOf
    split
    · rename_i listable inner found
      exact inductionHypothesis (.enter sound found)
    · exact ⟨sound, rfl⟩

/-- An origin is in the tree. -/
theorem origin?_sound {place : Place} {names : List Bytes} (starts : disk.origin? path = some (place, names)) :
    place.Sound ∧ place.root = disk.root := by
  have working := placeOf_sound (.root disk.root) disk.working
  unfold origin? at starts
  split at starts
  · obtain ⟨rfl, _⟩ := Prod.mk.inj (Option.some.inj starts)
    exact ⟨.root _, rfl⟩
  · split at starts
    · obtain ⟨rest, _, same⟩ := Option.map_eq_some_iff.mp starts
      obtain ⟨rfl, _⟩ := Prod.mk.inj same
      exact working
    · obtain ⟨rfl, _⟩ := Prod.mk.inj (Option.some.inj starts)
      exact working

/-- Where a path with an origin leads is in the tree. -/
theorem locate_sound_of_origin {follow : Bool} {place : Place} {names : List Bytes} {target : Target}
    (starts : disk.origin? path = some (place, names)) (found : disk.locate follow path = .ok target) :
    target.Sound disk.root := by
  obtain ⟨sound, root⟩ := origin?_sound starts
  rw [locate_eq_walk found, walk_origin starts] at found
  exact root ▸ walk_sound sound found

/-- A leaf that a path leads to is in the tree, so the path has an origin. -/
theorem locate_leaf_sound {follow : Bool} {place : Place} {name : Bytes} {single : Leaf}
    (found : disk.locate follow path = .ok (.leaf place name single)) :
    disk.origin? path ≠ none ∧ (Target.leaf place name single).Sound disk.root := by
  cases starts : disk.origin? path with
  | none => exact absurd rfl ((locate_stays starts found).2 place name single)
  | some start => exact ⟨by simp, locate_sound_of_origin starts found⟩

/-- It is seen there. -/
theorem locate_leaf_seen {follow : Bool} {place : Place} {name : Bytes} {single : Leaf}
    (found : disk.locate follow path = .ok (.leaf place name single)) :
    disk.root.sight? name place.location = some (.leaf single) := by
  obtain ⟨_, ⟨sound, root⟩, met⟩ := locate_leaf_sound found
  rw [← root, Matches.sight? sound, met]
  rfl

/-- Whether a path has an origin depends on no more than whether the working folder was removed. -/
theorem origin?_eq_none_of_removed (removed : disk'.removed = disk.removed) (stays : disk.origin? path = none) :
    disk'.origin? path = none := by
  unfold origin? at stays ⊢
  rw [removed]
  split at stays
  · exact absurd stays (by simp)
  · rename_i relative
    split at stays
    · rename_i gone
      rw [if_neg relative, if_pos gone]
      exact Option.map_eq_none_iff.mpr (Option.map_eq_none_iff.mp stays)
    · exact absurd stays (by simp)

variable {name : Bytes} {location : List Bytes}

/-- An end is not passed on the way to the working folder. -/
theorem placeOf_matches (differ : DifferAt name location before after) {place place' : Place}
    (matched : Matches before after place place') (names : List Bytes) :
    Matches before after (placeOf place names) (placeOf place' names) := by
  induction names generalizing place place' with
  | nil => exact matched
  | cons first names inductionHypothesis =>
    have symmetric : Matches after before place' place :=
      ⟨matched.sound', matched.sound, matched.root', matched.root, matched.location.symm⟩
    unfold placeOf
    split
    · rename_i listable inner found
      obtain ⟨inner', found', entered⟩ := matched.enter differ found
      rw [found']
      exact inductionHypothesis entered
    · rename_i stops
      split
      · rename_i listable inner found'
        obtain ⟨inner', found, _⟩ := symmetric.enter differ.symm found'
        exact absurd found (stops listable inner')
      · exact matched

/-- Trees that differ at one end have the same origin of a path. -/
theorem origin?_matches (differ : DifferAt name location disk.root disk'.root)
    (working : disk'.working = disk.working) (removed : disk'.removed = disk.removed) {place : Place}
    {names : List Bytes} (starts : disk.origin? path = some (place, names)) :
    ∃ place', disk'.origin? path = some (place', names) ∧ Matches disk.root disk'.root place place' := by
  have roots : Matches disk.root disk'.root ⟨disk.root, []⟩ ⟨disk'.root, []⟩ :=
    ⟨.root _, .root _, rfl, rfl, rfl⟩
  have working' := placeOf_matches differ roots disk.working
  unfold origin? at starts ⊢
  rw [working, removed]
  split at starts
  · rename_i absolute
    obtain ⟨rfl, rfl⟩ := Prod.mk.inj (Option.some.inj starts)
    exact ⟨_, if_pos absolute, roots⟩
  · rename_i relative
    rw [if_neg relative]
    split at starts
    · rename_i gone
      obtain ⟨rest, climbs, same⟩ := Option.map_eq_some_iff.mp starts
      obtain ⟨rfl, rfl⟩ := Prod.mk.inj same
      exact ⟨_, by rw [if_pos gone, climbs]; rfl, working'⟩
    · rename_i present
      obtain ⟨rfl, rfl⟩ := Prod.mk.inj (Option.some.inj starts)
      exact ⟨_, if_neg present, working'⟩

/-- A path that leads to an end leads to it also after a change of this end. -/
theorem locate_settles {follow : Bool} {target : Target}
    (differ : DifferAt name location disk.root disk'.root) (working : disk'.working = disk.working)
    (removed : disk'.removed = disk.removed) (starts : disk.origin? path ≠ none)
    (found : disk.locate follow path = .ok target) (ends : target.EndsAt name location) :
    ∃ final : Place, final.Sound ∧ final.root = disk'.root ∧ final.location = location ∧
      disk'.locate follow path = final.settle name := by
  obtain ⟨⟨place, names⟩, starts⟩ := Option.ne_none_iff_exists'.mp starts
  obtain ⟨place', starts', matched⟩ := origin?_matches differ working removed starts
  have found' := found
  rw [locate_eq_walk found, walk_origin starts] at found'
  obtain ⟨final, sound, root, there, settled⟩ := walk_matches differ matched found' ends
  refine ⟨final, sound, root, there, ?_⟩
  rw [locate_eq_walk found, walk_origin starts', settled]

/-- The way to the working folder has no more names than were given. -/
theorem placeOf_named {place : Place} {names : List Bytes} (named : [] ∉ place.location) (given : [] ∉ names) :
    [] ∉ (placeOf place names).location := by
  induction names generalizing place with
  | nil => exact named
  | cons first names inductionHypothesis =>
    obtain ⟨differs, given⟩ := not_or.mp (fun among => given (List.mem_cons.mpr among))
    unfold placeOf
    split
    · rename_i listable inner found
      refine inductionHypothesis ?_ given
      rw [Place.location_enter, List.mem_append, List.mem_singleton]
      exact not_or.mpr ⟨named, differs⟩
    · exact named

theorem origin?_named {place : Place} {names : List Bytes} (given : [] ∉ disk.working)
    (starts : disk.origin? path = some (place, names)) : [] ∉ place.location := by
  have root : [] ∉ (⟨disk.root, []⟩ : Place).location := by simp [Place.location]
  have working := placeOf_named root given
  unfold origin? at starts
  split at starts
  · obtain ⟨rfl, _⟩ := Prod.mk.inj (Option.some.inj starts)
    exact root
  · split at starts
    · obtain ⟨rest, _, same⟩ := Option.map_eq_some_iff.mp starts
      obtain ⟨rfl, _⟩ := Prod.mk.inj same
      exact working
    · obtain ⟨rfl, _⟩ := Prod.mk.inj (Option.some.inj starts)
      exact working

/-- A path that leads to a leaf leads to it also after a change of an end somewhere else. -/
theorem locate_elsewhere {follow : Bool} {place : Place} {last : Bytes} {single : Leaf}
    (differ : DifferAt name location disk.root disk'.root) (working : disk'.working = disk.working)
    (removed : disk'.removed = disk.removed) (given : [] ∉ disk.working)
    (found : disk.locate follow path = .ok (.leaf place last single))
    (away : (last, place.location) ≠ (name, location)) :
    ∃ place', disk'.locate follow path = .ok (.leaf place' last single) ∧ place'.location = place.location := by
  obtain ⟨⟨start, names⟩, starts⟩ := Option.ne_none_iff_exists'.mp (locate_leaf_sound found).1
  obtain ⟨start', starts', matched⟩ := origin?_matches differ working removed starts
  have found' := found
  rw [locate_eq_walk found, walk_origin starts] at found'
  obtain ⟨place', leads, there⟩ := walk_keeps differ.keeps matched (origin?_named given starts) found' away
  refine ⟨place', ?_, there⟩
  rw [locate_eq_walk found, walk_origin starts', leads]

end Disk

end LspProxy
