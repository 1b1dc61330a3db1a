import LspProxy.Proofs.Disk.Parents
import Mathlib.Data.List.Induction

/-!
# Climbing by the text and in the tree

A name for the place above leads, in the tree, out of the folder that the names before it have led to, and by
the text alone out of the name before it (`Path.collapse`). The two are the same where the name that is taken
away is one of a folder, and not of a link, in the folder that the names before it lead to
(`ClimbsOutOfFolders`): entering it and climbing out again leads back. So names that climb in this way lead
to a leaf exactly as what the text leaves of them does (`walk_collapse`). The induction is on the names from
the last one on, since what stands behind them makes no difference to where they lead.
-/
namespace LspProxy

namespace Path

variable {name : Bytes} {names above more : List Bytes}

/-! ## Climbing by the text alone -/

/-- What is left of names, those before them standing last first, when each one for the place above takes
away the one before it. -/
def collapseFrom (above : List Bytes) : List Bytes → List Bytes
  | [] => above
  | name :: rest => collapseFrom (if name = parent then above.tail else name :: above) rest

/-- What is left of the names of a path below the root. -/
def collapse (names : List Bytes) : List Bytes := (collapseFrom [] names).reverse

/-- The names of what is left of a path below the root. The root itself has one empty name. -/
def remaining (names : List Bytes) : List Bytes := if collapse names = [] then [[]] else collapse names

theorem collapseFrom_level (level : parent ∉ names) :
    collapseFrom above names = names.reverse ++ above := by
  induction names generalizing above with
  | nil => rfl
  | cons name rest inductionHypothesis =>
    obtain ⟨other, level⟩ := List.ne_and_not_mem_of_not_mem_cons level
    rw [collapseFrom, if_neg other.symm, inductionHypothesis level]
    simp

/-- Where nothing climbs, nothing is taken away. -/
theorem collapse_level (level : parent ∉ names) : collapse names = names := by
  rw [collapse, collapseFrom_level level, List.append_nil, List.reverse_reverse]

theorem mem_of_mem_collapseFrom (among : name ∈ collapseFrom above names) :
    name ∈ above ∨ name ∈ names := by
  induction names generalizing above with
  | nil => exact .inl among
  | cons first rest inductionHypothesis =>
    rcases inductionHypothesis among with among | among
    · split at among
      · exact .inl (List.mem_of_mem_tail among)
      · rcases List.mem_cons.mp among with rfl | among
        · exact .inr List.mem_cons_self
        · exact .inl among
    · exact .inr (List.mem_cons_of_mem _ among)

/-- Only names of the path are left. -/
theorem mem_of_mem_collapse (among : name ∈ collapse names) : name ∈ names :=
  (mem_of_mem_collapseFrom (List.mem_reverse.mp among)).resolve_left List.not_mem_nil

/-- No name that climbs is left. -/
theorem parent_not_mem_collapseFrom (level : parent ∉ above) : parent ∉ collapseFrom above names := by
  induction names generalizing above with
  | nil => exact level
  | cons name rest inductionHypothesis =>
    apply inductionHypothesis
    split
    · exact fun among => level (List.mem_of_mem_tail among)
    · rename_i other
      exact List.not_mem_cons_of_ne_of_not_mem (Ne.symm other) level

theorem parent_not_mem_collapse : parent ∉ collapse names :=
  fun among => parent_not_mem_collapseFrom List.not_mem_nil (List.mem_reverse.mp among)

theorem collapseFrom_append :
    collapseFrom above (names ++ more) = collapseFrom (collapseFrom above names) more := by
  induction names generalizing above with
  | nil => rfl
  | cons name rest inductionHypothesis => exact inductionHypothesis

/-- A name that climbs takes the last of the names away that are left of those before it. -/
theorem collapse_parent : collapse (names ++ [parent]) = (collapse names).dropLast := by
  rw [collapse, collapseFrom_append, collapseFrom, if_pos rfl, collapseFrom, collapse, List.dropLast_reverse]

/-- Names that do not climb stay behind what is left of those before them. -/
theorem collapse_append (level : parent ∉ more) : collapse (names ++ more) = collapse names ++ more := by
  rw [collapse, collapseFrom_append, collapseFrom_level level, List.reverse_append, List.reverse_reverse]
  rfl

end Path

namespace Disk

variable {root : Folder} {place final : Place} {asked listable : Bool} {links : Nat} {names more : List Bytes}
  {name : Bytes} {single : Leaf}

/-- Whenever the names climb, the name that the text takes away is the one of a folder in the folder that the
names left before it lead to. -/
def ClimbsOutOfFolders (root : Folder) (names : List Bytes) : Prop :=
  ∀ before after left name, names = before ++ Path.parent :: after → Path.collapse before = left ++ [name] →
    ∃ place asked listable inner, walk true linkLimit ⟨root, []⟩ true left = .ok (.folder place asked) ∧
      place.folder.find? name = some (.folder listable inner)

theorem ClimbsOutOfFolders.of_append (climbs : ClimbsOutOfFolders root (names ++ more)) :
    ClimbsOutOfFolders root names := by
  rintro before after left name rfl
  exact climbs before (after ++ more) left name (by simp)

/-- Names behind them that do not climb are of no account. -/
theorem ClimbsOutOfFolders.append (climbs : ClimbsOutOfFolders root names) (level : Path.parent ∉ more) :
    ClimbsOutOfFolders root (names ++ more) := by
  intro before after left name parts
  rcases List.append_eq_append_iff.mp parts with ⟨between, rfl, behind⟩ | ⟨between, rfl, behind⟩
  · exact absurd (behind ▸ List.mem_append_right _ List.mem_cons_self) level
  · cases between with
    | nil => exact absurd (List.nil_append more ▸ behind ▸ List.mem_cons_self) level
    | cons first later =>
      obtain ⟨rfl, rfl⟩ := List.cons.inj behind
      exact climbs before later left name rfl

/-- Whether a folder can be listed makes no difference to names that lead on from it to a leaf. -/
theorem walk_listable {follow : Bool}
    (found : walk follow links place asked names = .ok (.leaf final name single)) (asked' : Bool) :
    walk follow links place asked' names = .ok (.leaf final name single) := by
  induction names with
  | nil =>
    rw [walk] at found
    exact absurd found (by simp)
  | cons first rest inductionHypothesis =>
    by_cases idle : first = [] ∨ first = Path.current
    · rw [walk, if_pos idle] at found ⊢
      exact inductionHypothesis found
    · rw [walk, if_neg idle] at found ⊢
      exact found

/-- Entering a folder and climbing out of it again leads back. -/
theorem walk_back {inner : Folder} (counts : Path.Counts name) (other : name ≠ Path.parent)
    (met : place.folder.find? name = some (.folder listable inner))
    {last : Bytes}
    (found : walk true links place asked (name :: Path.parent :: more) = .ok (.leaf final last single)) :
    walk true links place true more = .ok (.leaf final last single) := by
  rw [walk, if_neg (not_or.mpr counts), if_neg other] at found
  split at found
  · exact absurd found (by simp)
  · rw [met] at found
    have moves : ¬ (Path.parent = [] ∨ Path.parent = Path.current) := by decide
    simp only [walk, if_neg moves, if_true] at found
    exact found

/-- Names that climb out of folders alone lead to a leaf as what the text leaves of them does. -/
theorem walk_collapse (climbs : ClimbsOutOfFolders root names) (counts : ∀ name ∈ names, Path.Counts name)
    (found : walk true linkLimit ⟨root, []⟩ true (names ++ more) = .ok (.leaf final name single)) :
    walk true linkLimit ⟨root, []⟩ true (Path.collapse names ++ more) = .ok (.leaf final name single) := by
  induction names using List.reverseRecOn generalizing more with
  | nil => exact found
  | append_singleton before last inductionHypothesis =>
    have counts' : ∀ name ∈ before, Path.Counts name := fun name among =>
      counts name (List.mem_append_left _ among)
    rw [List.append_assoc, List.singleton_append] at found
    have found := inductionHypothesis climbs.of_append counts' found
    by_cases parent : last = Path.parent
    · subst parent
      rw [Path.collapse_parent]
      rcases List.eq_nil_or_concat (Path.collapse before) with empty | ⟨left, taken, same⟩
      · -- nothing is above the root but itself
        rw [empty] at found ⊢
        have moves : ¬ (Path.parent = [] ∨ Path.parent = Path.current) := by decide
        rw [List.nil_append, walk, if_neg moves, if_pos rfl] at found
        exact found
      · rw [List.concat_eq_append] at same
        obtain ⟨place, asked, listable, inner, walked, met⟩ := climbs before [] left taken rfl same
        have among : taken ∈ Path.collapse before := same ▸ List.mem_append_right _ List.mem_cons_self
        have other : taken ≠ Path.parent := by
          rintro rfl
          exact Path.parent_not_mem_collapse among
        rw [← List.append_nil left] at walked
        obtain ⟨links, goes⟩ := walk_through rfl walked
        rw [same, List.append_assoc, goes] at found
        have back := walk_back (counts' taken (Path.mem_of_mem_collapse among)) other met found
        rw [same, List.dropLast_concat, goes]
        exact walk_listable back asked
    · rw [Path.collapse_append (by simpa using Ne.symm parent), List.append_assoc]
      exact found

end Disk

end LspProxy
