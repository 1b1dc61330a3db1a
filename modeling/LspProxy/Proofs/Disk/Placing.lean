import LspProxy.Proofs.Disk.Names
import LspProxy.Proofs.Disk.Persistence

/-!
# Putting something where nothing was

A leaf that is no link can be put where a path leads to nothing, and the path leads to it then, whether links
at its end are followed or not (`place_puts`). The one entry is all that is seen to change. The path has to
start in the tree: a working folder that has been removed has no name there, and nothing can be put into it.
-/
namespace LspProxy.Disk

/-- A leaf is put under this name into the folder at this location, where nothing had the name, and nothing
else is done. -/
structure Puts (before after : Disk) (name : Bytes) (location : List Bytes) (single : Leaf) : Prop where
  vacant : before.root.sight? name location = none
  stands : after.root.sight? name location = some (.leaf single)
  elsewhere : ∀ last path, (last, path) ≠ (name, location) →
    after.root.sight? last path = before.root.sight? last path
  others : after = { before with root := after.root }

variable {disk after : Disk} {path : Path} {place : Place} {name : Bytes} {single : Leaf}

/-- What a path leads to without following a link at its end, and is no link, is what it leads to. -/
theorem walk_followed {links : Nat} {place final : Place} {asked : Bool} {names : List Bytes}
    (found : walk false links place asked names = .ok (.leaf final name single))
    (ends : Ending (some (.leaf single))) :
    walk true links place asked names = .ok (.leaf final name single) := by
  fun_induction walk false links place asked names with
  | case1 links place asked => exact absurd found (by simp)
  | case2 links place asked first rest idle inductionHypothesis =>
    rw [walk, if_pos idle]
    exact inductionHypothesis found
  | case3 links place asked rest counts inductionHypothesis =>
    rw [walk, if_neg counts, if_pos rfl]
    exact inductionHypothesis found
  | case4 | case5 | case6 | case9 | case10 | case13 => exact absurd found (by simp)
  | case7 links place asked first rest counts below short listable inner met inductionHypothesis =>
    rw [walk, if_neg counts, if_neg below, if_neg short, met]
    exact inductionHypothesis found
  | case8 links place asked first rest counts below short target met last =>
    obtain ⟨_, _, rfl⟩ := Target.leaf.inj (Except.ok.inj found)
    exact absurd ends id
  | case11 place asked first rest counts below short target met further left link start =>
    rename_i inductionHypothesis
    rw [walk, if_neg counts, if_neg below, if_neg short]
    simp only [met, not_true_eq_false, and_false, if_false, if_neg link]
    exact inductionHypothesis found
  | case12 links place asked first counts below short other notLink met =>
    rw [walk, if_neg counts, if_neg below, if_neg short]
    simp only [met, if_true]
    exact found

theorem locate_followed (found : disk.locate false path = .ok (.leaf place name single))
    (ends : Ending (some (.leaf single))) : disk.locate true path = .ok (.leaf place name single) := by
  obtain ⟨plain, given, short⟩ := locate_eq_ok found
  rw [locate_eq_walk found] at found
  rw [locate, if_neg plain, if_neg given, if_neg short]
  exact walk_followed found ends

/-- A leaf that is no link can be put where a path from somewhere in the tree leads to nothing, and is what the
path leads to then. -/
theorem place_puts (starts : disk.origin? path ≠ none) (ends : Ending (some (.leaf single)))
    (found : disk.locate false path = .ok (.vacant place name false)) :
    ∃ after final, disk.place path single = .ok after ∧ Puts disk after name place.location single ∧
      after.locate false path = .ok (.leaf final name single) ∧ final.location = place.location := by
  obtain ⟨start, starts'⟩ := Option.ne_none_iff_exists'.mp starts
  obtain ⟨⟨sound, root⟩, vacant⟩ := locate_sound_of_origin starts' found
  have there := Folder.find?_put_self name (.leaf single) place.folder
  obtain ⟨tree, modified, differ, reached, _⟩ := modify?_differs sound
    (fun other differs => Folder.find?_put_of_ne differs (.leaf single) place.folder)
    (vacant ▸ trivial) (there ▸ ends)
  have unseen : disk.root.sight? name place.location = none := by
    rw [← root, Matches.sight? sound, vacant]
    rfl
  rw [root] at modified differ
  have placed : disk.place path single = .ok { disk with root := tree } := by
    unfold Disk.place
    rw [found]
    exact change_eq modified
  have elsewhere : DifferAt name place.location disk.root ({ disk with root := tree } : Disk).root := differ
  obtain ⟨final, sound', root', location, settled⟩ :=
    locate_settles elsewhere rfl rfl starts found ⟨rfl, rfl, rfl⟩
  have reached' := sound'.reach
  rw [root', location, reached] at reached'
  refine ⟨{ disk with root := tree }, final, placed, ⟨unseen, ?_, differ.elsewhere, rfl⟩, ?_, location⟩
  · rw [Folder.sight?_of_reach? reached, there]
    rfl
  · rw [settled]
    unfold Place.settle
    rw [← Option.some.inj reached', there]

end LspProxy.Disk
