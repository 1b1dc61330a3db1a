import LspProxy.Disk.Basic
import LspProxy.Proofs.Disk.Edits

/-!
# Where paths lead after a change

A place carries the folders on the way to it along, so after a change of the tree the places on a path are
other values, even where nothing is seen to have changed. What stays is their location. Places of two
trees match if both are true to their tree and have one location (`Matches`); a path followed from
matching places leads through matching places as long as it meets what is seen alike in both trees.

A path that leads to an entry which is not a folder or a link meets this entry only at its end. So if two
trees differ at this entry alone, the path leads to it in both (`walk_matches`).
-/
namespace LspProxy.Disk

/-- Each folder on the way to the place is the one that its name leads to from the folder before. -/
inductive Place.Sound : Place → Prop where
  | root (root : Folder) : Sound ⟨root, []⟩
  | enter {place : Place} {name : Bytes} {listable : Bool} {inner : Folder} (sound : place.Sound)
    (found : place.folder.find? name = some (.folder listable inner)) : Sound (place.enter name inner)

namespace Place

variable {place : Place}

theorem location_enter (place : Place) (name : Bytes) (inner : Folder) :
    (place.enter name inner).location = place.location ++ [name] := by
  simp [location, enter]

theorem location_above (place : Place) : place.above.location = place.location.dropLast := by
  unfold location above
  cases place.trail with
  | nil => rfl
  | cons first trail => simp

theorem Sound.above (sound : place.Sound) : place.above.Sound := by
  cases sound with
  | root root => exact .root root
  | enter sound found => exact sound

/-- Where a link leads from: the root, or the place that it is in. -/
theorem Sound.origin (sound : place.Sound) (absolute : Bool) :
    (if absolute then ⟨place.root, []⟩ else place : Place).Sound := by
  cases absolute
  · exact sound
  · exact .root place.root

theorem root_origin (place : Place) (absolute : Bool) :
    (if absolute then ⟨place.root, []⟩ else place : Place).root = place.root := by
  cases absolute <;> rfl

/-- The names on the way to a place lead to its folder. -/
theorem Sound.reach (sound : place.Sound) :
    place.root.reach? place.location = some place.folder := by
  induction sound with
  | root root => rfl
  | @enter place name listable inner _ found inductionHypothesis =>
    rw [location_enter]
    exact Folder.reach?_snoc inductionHypothesis found

end Place

/-- The place that a path leads to, and what is there, are in the tree that it was followed in. -/
def Target.Sound (root : Folder) : Target → Prop
  | .folder place _ => place.Sound ∧ place.root = root
  | .leaf place name single =>
    (place.Sound ∧ place.root = root) ∧ place.folder.find? name = some (.leaf single)
  | .vacant place name _ => (place.Sound ∧ place.root = root) ∧ place.folder.find? name = none

theorem walk_sound {follow listable : Bool} {links : Nat} {place : Place} {names : List Bytes}
    {target : Target} (sound : place.Sound)
    (found : walk follow links place listable names = .ok target) : target.Sound place.root := by
  fun_induction walk follow links place listable names with
  | case1 links place listable =>
    obtain rfl := Except.ok.inj found
    exact ⟨sound, rfl⟩
  | case2 links place listable name rest idle inductionHypothesis =>
    exact inductionHypothesis sound found
  | case3 links place listable rest counts inductionHypothesis =>
    exact inductionHypothesis sound.above found
  | case4 | case6 | case9 | case10 | case13 => exact absurd found (by simp)
  | case5 links place listable name rest _ _ _ vacant last =>
    obtain rfl := Except.ok.inj found
    exact ⟨⟨sound, rfl⟩, vacant⟩
  | case7 links place _ name rest _ _ _ listable inner met inductionHypothesis =>
    exact inductionHypothesis (.enter sound met) found
  | case8 links place listable name rest _ _ _ target met last =>
    obtain rfl := Except.ok.inj found
    exact ⟨⟨sound, rfl⟩, met⟩
  | case11 place listable name rest _ _ _ target met further left link start inductionHypothesis =>
    have followed := inductionHypothesis (sound.origin _) found
    have same : start.root = place.root := place.root_origin _
    rwa [same] at followed
  | case12 links place listable name _ _ _ leaf other met =>
    obtain rfl := Except.ok.inj found
    exact ⟨⟨sound, rfl⟩, met⟩

/-! ## Two trees -/

/-- An entry that no path leads through: nothing, or neither a folder nor a link. -/
def Ending : Option Entry → Prop
  | none => True
  | some (.leaf (.link _)) => False
  | some (.leaf _) => True
  | some (.folder _ _) => False

instance (seen? : Option Entry) : Decidable (Ending seen?) :=
  match seen? with
  | none => .isTrue trivial
  | some (.leaf (.link _)) => .isFalse id
  | some (.leaf (.file _ _)) => .isTrue trivial
  | some (.leaf (.socket _)) => .isTrue trivial
  | some (.leaf (.device _)) => .isTrue trivial
  | some (.folder _ _) => .isFalse id

/-- Where a path leads whose last name is looked up at this place, if the entry there is an end. -/
def Place.settle (place : Place) (name : Bytes) : Except Failure Target :=
  match place.folder.find? name with
  | some (.leaf single) => .ok (.leaf place name single)
  | _ => .ok (.vacant place name false)

/-- The path ends with this name in the folder at this location. -/
def Target.EndsAt (name : Bytes) (location : List Bytes) : Target → Prop
  | .folder _ _ => False
  | .leaf place last _ => last = name ∧ place.location = location
  | .vacant place last slashed => last = name ∧ place.location = location ∧ slashed = false

/-- Two trees in which the same is seen but for what stands under one name in the folder at one
location, which is an end in both. -/
structure DifferAt (name : Bytes) (location : List Bytes) (before after : Folder) : Prop where
  elsewhere : ∀ last path, (last, path) ≠ (name, location) → after.sight? last path = before.sight? last path
  ends : Ending (before.sight? name location)
  ends' : Ending (after.sight? name location)

/-- Places of two trees with one location. -/
structure Matches (before after : Folder) (place place' : Place) : Prop where
  sound : place.Sound
  sound' : place'.Sound
  root : place.root = before
  root' : place'.root = after
  location : place'.location = place.location

namespace Matches

variable {before after : Folder} {place place' : Place} {name : Bytes} {location : List Bytes}

theorem above (matched : Matches before after place place') :
    Matches before after place.above place'.above where
  sound := matched.sound.above
  sound' := matched.sound'.above
  root := matched.root
  root' := matched.root'
  location := by rw [Place.location_above, Place.location_above, matched.location]

theorem origin (matched : Matches before after place place') (absolute : Bool) :
    Matches before after (if absolute then ⟨place.root, []⟩ else place)
      (if absolute then ⟨place'.root, []⟩ else place') := by
  cases absolute
  · exact matched
  · exact ⟨.root _, .root _, matched.root, matched.root', rfl⟩

/-- What is seen at a place is what is seen of the tree there. -/
theorem sight? (sound : place.Sound) (last : Bytes) :
    place.root.sight? last place.location = (place.folder.find? last).map Entry.outside :=
  Folder.sight?_of_reach? sound.reach last

/-- Matching places look alike but for the one entry. -/
theorem outside_eq (matched : Matches before after place place') (differ : DifferAt name location before after)
    {last : Bytes} (elsewhere : (last, place.location) ≠ (name, location)) :
    (place'.folder.find? last).map Entry.outside = (place.folder.find? last).map Entry.outside := by
  have seen := differ.elsewhere last place.location elsewhere
  rwa [← matched.root, ← matched.root', ← sight? matched.sound last, ← matched.location,
    ← sight? matched.sound' last] at *

/-- A folder seen in one is a folder seen in the other. -/
theorem enter (matched : Matches before after place place') (differ : DifferAt name location before after)
    {last : Bytes} {listable : Bool} {inner : Folder}
    (found : place.folder.find? last = some (.folder listable inner)) :
    ∃ inner', place'.folder.find? last = some (.folder listable inner') ∧
      Matches before after (place.enter last inner) (place'.enter last inner') := by
  have elsewhere : (last, place.location) ≠ (name, location) := by
    intro same
    obtain ⟨rfl, rfl⟩ := Prod.mk.inj same
    have ends := differ.ends
    rw [← matched.root, sight? matched.sound, found] at ends
    exact ends
  have alike := matched.outside_eq differ elsewhere
  rw [found] at alike
  obtain ⟨entry, met, same⟩ := Option.map_eq_some_iff.mp alike
  cases entry with
  | leaf single => exact absurd same (by simp [Entry.outside])
  | folder listable' inner' =>
    obtain rfl : listable' = listable := (Entry.folder.inj same).1
    exact ⟨inner', met, .enter matched.sound found, .enter matched.sound' met, matched.root, matched.root',
      by rw [Place.location_enter, Place.location_enter, matched.location]⟩

/-- So is a link. -/
theorem link (matched : Matches before after place place') (differ : DifferAt name location before after)
    {last target : Bytes} (found : place.folder.find? last = some (.leaf (.link target))) :
    place'.folder.find? last = some (.leaf (.link target)) := by
  have elsewhere : (last, place.location) ≠ (name, location) := by
    intro same
    obtain ⟨rfl, rfl⟩ := Prod.mk.inj same
    have ends := differ.ends
    rw [← matched.root, sight? matched.sound, found] at ends
    exact ends
  have alike := matched.outside_eq differ elsewhere
  rw [found] at alike
  obtain ⟨entry, met, same⟩ := Option.map_eq_some_iff.mp alike
  cases entry with
  | leaf single =>
    obtain rfl : single = .link target := Entry.leaf.inj same
    exact met
  | folder listable inner => exact absurd same (by simp [Entry.outside])

end Matches

/-- The last name of a path, if what has it is an end. -/
theorem walk_last {follow listable : Bool} {links : Nat} {place : Place} {name : Bytes}
    (counts : ¬ (name = [] ∨ name = Path.current)) (below : ¬ name = Path.parent)
    (short : ¬ nameLimit < name.length) (ends : Ending (place.folder.find? name)) :
    walk follow links place listable [name] = place.settle name := by
  rw [walk, if_neg counts, if_neg below, if_neg short]
  unfold Place.settle
  cases found : place.folder.find? name with
  | none => simp
  | some entry =>
    rw [found] at ends
    cases entry with
    | folder listable inner => exact absurd ends id
    | leaf single =>
      cases single with
      | link target => exact absurd ends id
      | file content executable => simp
      | socket identity => simp
      | device device => simp

/-- What is seen outside decides whether an entry is an end. -/
theorem ending_outside (seen? : Option Entry) : Ending (seen?.map Entry.outside) ↔ Ending seen? := by
  rcases seen? with _ | ⟨_ | _⟩ | _ <;> exact Iff.rfl

/-- A path that leads to an end leads to it in both trees. -/
theorem walk_matches {before after : Folder} {name : Bytes} {location : List Bytes}
    (differ : DifferAt name location before after) {follow listable : Bool} {links : Nat}
    {place place' : Place} {names : List Bytes} {target : Target}
    (matched : Matches before after place place')
    (found : walk follow links place listable names = .ok target) (ends : target.EndsAt name location) :
    ∃ final : Place, final.Sound ∧ final.root = after ∧ final.location = location ∧
      walk follow links place' listable names = final.settle name := by
  fun_induction walk follow links place listable names generalizing place' with
  | case1 links place listable =>
    obtain rfl := Except.ok.inj found
    exact absurd ends id
  | case2 links place listable first rest idle inductionHypothesis =>
    rw [walk, if_pos idle]
    exact inductionHypothesis matched found
  | case3 links place listable rest counts inductionHypothesis =>
    rw [walk, if_neg counts, if_pos rfl]
    exact inductionHypothesis matched.above found
  | case4 | case6 | case9 | case10 | case13 => exact absurd found (by simp)
  | case5 links place listable first rest counts below short vacant last =>
    obtain rfl := Except.ok.inj found
    obtain ⟨rfl, rfl, unslashed⟩ := ends
    obtain rfl : rest = [] := by simpa using unslashed
    have ends' := differ.ends'
    rw [← matched.root', ← matched.location, Matches.sight? matched.sound', ending_outside] at ends'
    exact ⟨place', matched.sound', matched.root', matched.location, walk_last counts below short ends'⟩
  | case7 links place _ first rest counts below short listable inner met inductionHypothesis =>
    obtain ⟨inner', met', entered⟩ := matched.enter differ met
    rw [walk, if_neg counts, if_neg below, if_neg short, met']
    exact inductionHypothesis entered found
  | case8 links place listable first rest _ _ _ target' met last =>
    obtain rfl := Except.ok.inj found
    obtain ⟨rfl, rfl⟩ := ends
    have ends := differ.ends
    rw [← matched.root, Matches.sight? matched.sound, met] at ends
    exact absurd ends id
  | case11 place listable first rest counts below short target' met further left link start =>
    rename_i inductionHypothesis
    rw [walk, if_neg counts, if_neg below, if_neg short, matched.link differ met]
    simp only [if_neg further, if_neg link]
    exact inductionHypothesis (matched.origin _) found
  | case12 links place listable first counts below short single other met =>
    obtain rfl := Except.ok.inj found
    obtain ⟨rfl, rfl⟩ := ends
    have ends' := differ.ends'
    rw [← matched.root', ← matched.location, Matches.sight? matched.sound', ending_outside] at ends'
    exact ⟨place', matched.sound', matched.root', matched.location, walk_last counts below short ends'⟩

/-! ## Changes on the disk -/

/-- An end is no folder. -/
theorem Ending.isFolder {seen? : Option Entry} (ends : Ending seen?) :
    ∀ entry, seen? = some entry → entry.isFolder = false := by
  rintro (single | listable) rfl
  · rfl
  · exact absurd ends id

/-- Changing an end into an end, by an edit of the folder at a sound place that concerns this name. The
edit takes place, and it is all that is seen to change. -/
theorem modify?_differs {place : Place} {name : Bytes} {edit : Folder → Folder} (sound : place.Sound)
    (only : ∀ other, other ≠ name → (edit place.folder).find? other = place.folder.find? other)
    (ends : Ending (place.folder.find? name)) (ends' : Ending ((edit place.folder).find? name)) :
    ∃ after, place.root.modify? edit place.location = some after ∧
      DifferAt name place.location place.root after ∧
      after.reach? place.location = some (edit place.folder) ∧
      (edit place.folder = place.folder → after = place.root) := by
  obtain ⟨after, modified, reached, elsewhere, unchanged⟩ :=
    Folder.sight?_modify? sound.reach only ends.isFolder ends'.isFolder
  refine ⟨after, modified, ⟨elsewhere, ?_, ?_⟩, reached, unchanged⟩
  · rwa [Folder.sight?_of_reach? sound.reach, ending_outside]
  · rwa [Folder.sight?_of_reach? reached, ending_outside]

/-- To change the disk is to change its tree. -/
theorem change_eq {disk : Disk} {place : Place} {edit : Folder → Folder} {root : Folder}
    (modified : disk.root.modify? edit place.location = some root) :
    disk.change place edit = .ok { disk with root } := by
  unfold change
  rw [modified]

/-- Whether a path can be followed at all does not depend on the file system. -/
theorem locate_eq_walk {disk : Disk} {follow : Bool} {path : Path} {target : Target}
    (found : disk.locate follow path = .ok target) (other : Disk) :
    other.locate follow path =
      walk follow linkLimit (if path.isAbsolute then ⟨other.root, []⟩ else other.workingPlace) true
        path.names := by
  unfold locate at found
  split at found
  · exact absurd found (by simp)
  · rename_i plain
    split at found
    · exact absurd found (by simp)
    · rename_i given
      split at found
      · exact absurd found (by simp)
      · rename_i short
        unfold locate
        rw [if_neg plain, if_neg given, if_neg short]

/-- Where an absolute path leads is in the tree. -/
theorem locate_sound {disk : Disk} {follow : Bool} {path : Path} {target : Target}
    (absolute : path.isAbsolute = true) (found : disk.locate follow path = .ok target) :
    target.Sound disk.root := by
  rw [locate_eq_walk found, if_pos absolute] at found
  exact walk_sound (.root disk.root) found

/-- An absolute path that leads to an end leads to it also after a change of this end. -/
theorem locate_matches {disk after : Disk} {follow : Bool} {path : Path} {target : Target}
    {name : Bytes} {location : List Bytes} (absolute : path.isAbsolute = true)
    (differ : DifferAt name location disk.root after.root) (found : disk.locate follow path = .ok target)
    (ends : target.EndsAt name location) :
    ∃ final : Place, final.Sound ∧ final.root = after.root ∧ final.location = location ∧
      after.locate follow path = final.settle name := by
  have roots : Matches disk.root after.root ⟨disk.root, []⟩ ⟨after.root, []⟩ :=
    ⟨.root _, .root _, rfl, rfl, rfl⟩
  rw [locate_eq_walk found, if_pos absolute]
  rw [locate_eq_walk found, if_pos absolute] at found
  exact walk_matches differ roots found ends

/-- A leaf that is not a link can be removed from where an absolute path leads, and if the names in each
folder are distinct, nothing is there any more. -/
theorem remove_ending {disk : Disk} {path : Path} {place : Place} {name : Bytes} {single : Leaf}
    (absolute : path.isAbsolute = true) (found : disk.locate false path = .ok (.leaf place name single))
    (ends : Ending (some (.leaf single))) (distinct : disk.root.Distinct) :
    ∃ root, disk.remove path = .ok { disk with root } ∧
      ∃ place', ({ disk with root } : Disk).locate false path = .ok (.vacant place' name false) := by
  obtain ⟨⟨sound, root⟩, met⟩ := locate_sound absolute found
  have reached := sound.reach
  rw [root] at reached
  have gone := Folder.find?_erase_self (distinct.reach? reached) name
  obtain ⟨after, modified, differ, reached', _⟩ := modify?_differs sound
    (fun other differs => Folder.find?_erase_of_ne differs place.folder) (met ▸ ends)
    (by rw [gone]; exact trivial)
  rw [root] at modified differ
  refine ⟨after, ?_, ?_⟩
  · unfold remove
    rw [found]
    exact change_eq modified
  · have elsewhere : DifferAt name place.location disk.root ({ disk with root := after } : Disk).root :=
      differ
    obtain ⟨final, sound', root', location, settled⟩ :=
      locate_matches absolute elsewhere found ⟨rfl, rfl⟩
    have reached'' := sound'.reach
    rw [root', location, reached'] at reached''
    refine ⟨final, ?_⟩
    rw [settled]
    unfold Place.settle
    rw [← Option.some.inj reached'', gone]

/-- Putting a leaf somewhere changes the folder that the path leads to, where nothing has its last
name. -/
theorem place_cases {disk after : Disk} {path : Path} {single : Leaf}
    (placed : disk.place path single = .ok after) :
    ∃ place last, disk.locate false path = .ok (.vacant place last false) ∧
      disk.change place (·.put last (.leaf single)) = .ok after := by
  unfold Disk.place at placed
  split at placed
  · exact absurd placed (by simp)
  · rename_i place last found
    exact ⟨place, last, found, placed⟩
  · exact absurd placed (by simp)
  · exact absurd placed (by simp)

/-- A leaf put at an absolute path, which is no link, is what the path leads to; and if it is removed from
there again, the tree is as it was. -/
theorem remove_place {disk after : Disk} {path : Path} {single : Leaf}
    (absolute : path.isAbsolute = true) (ends : Ending (some (.leaf single)))
    (placed : disk.place path single = .ok after) :
    ∃ place last, after.locate false path = .ok (.leaf place last single) ∧
      after.remove path = .ok { after with root := disk.root } := by
  obtain ⟨place, last, found, changed⟩ := place_cases placed
  obtain ⟨⟨sound, root⟩, vacant⟩ := locate_sound absolute found
  have there := Folder.find?_put_self last (.leaf single) place.folder
  have restored := Folder.erase_put vacant (.leaf single)
  obtain ⟨put, modified, differ, reached, _⟩ := modify?_differs sound
    (fun other differs => Folder.find?_put_of_ne differs (.leaf single) place.folder)
    (vacant ▸ trivial) (there ▸ ends)
  -- what has been put and removed again, as one edit that leaves the folder as it is
  obtain ⟨same, twice, _, _, unchanged⟩ :=
    @modify?_differs place last (Folder.erase last ∘ (·.put last (.leaf single))) sound
      (fun other _ => by rw [Function.comp_apply, restored])
      (vacant ▸ trivial) (by rw [Function.comp_apply, restored, vacant]; exact trivial)
  obtain rfl := unchanged restored
  rw [← Folder.modify?_modify? modified] at twice
  rw [root] at modified differ twice
  obtain rfl := Except.ok.inj ((change_eq modified).symm.trans changed)
  have elsewhere : DifferAt last place.location disk.root ({ disk with root := put } : Disk).root := differ
  obtain ⟨final, sound', root', location, settled⟩ :=
    locate_matches absolute elsewhere found ⟨rfl, rfl, rfl⟩
  have reached' := sound'.reach
  rw [root', location, reached] at reached'
  have located : ({ disk with root := put } : Disk).locate false path = .ok (.leaf final last single) := by
    rw [settled]
    unfold Place.settle
    rw [← Option.some.inj reached', there]
  refine ⟨final, last, located, ?_⟩
  unfold remove
  rw [located]
  exact change_eq (location ▸ twice)

/-- What is known of the sockets makes no difference to removing. -/
theorem remove_withSockets (disk : Disk) (path : Path) (next : Nat) (modes : List (Nat × Nat)) :
    ({ disk with nextSocket := next, modes } : Disk).remove path =
      (disk.remove path).map ({ · with nextSocket := next, modes }) := by
  have located : ({ disk with nextSocket := next, modes } : Disk).locate false path =
      disk.locate false path := rfl
  unfold remove
  rw [located]
  split
  · rfl
  · rfl
  · rfl
  · rename_i place name _ _
    simp only [change]
    cases disk.root.modify? (·.erase name) place.location with
    | none => rfl
    | some root => rfl

end LspProxy.Disk
