import LspProxy.Proofs.Disk.Writing
import LspProxy.Proofs.Uri.FilePath
import Mathlib.Data.List.Flatten

/-!
# The folders on the way to a file

A path that leads to a leaf has a last name, and what stands before it leads to a folder: following a path to
its end is following all of it but the end (`walk_above`). The path of that folder is written with the names
that count, the others lead nowhere (`walk_components`). So the folders that a file is in are there already,
and making them changes nothing (`ensureParent_of_leaf`).
-/
namespace LspProxy

namespace Path

/-- The name leads somewhere: it is neither empty nor the one for the current place. -/
abbrev Counts (name : Bytes) : Prop := name ≠ [] ∧ name ≠ current

/-- No slash is left in a name. -/
theorem slash_not_mem_names (path : Path) : ∀ name ∈ path.names, slash ∉ name := by
  induction path with
  | nil => simp [names, Text.fields]
  | cons b rest inductionHypothesis =>
    intro name among
    unfold names Text.fields at among
    unfold names at inductionHypothesis
    split at among
    · rename_i others cut
      rcases List.mem_cons.mp among with rfl | later
      · exact List.not_mem_nil
      · exact inductionHypothesis name later
    · rename_i cut
      exact absurd cut (Text.fields_ne_nil _ rest)
    · rename_i first others plain cut
      rw [cut] at inductionHypothesis
      rcases List.mem_cons.mp among with rfl | later
      · intro slashed
        rcases List.mem_cons.mp slashed with rfl | slashed
        · exact absurd plain (by simp)
        · exact inductionHypothesis first List.mem_cons_self slashed
      · exact inductionHypothesis name (List.mem_cons_of_mem _ later)

/-- A name that counts in a path. -/
theorem mem_components {path : Path} {name : Bytes} (among : name ∈ path.components) :
    name ≠ [] ∧ name ≠ current ∧ slash ∉ name := by
  obtain ⟨named, counts⟩ := List.mem_filter.mp among
  obtain ⟨given, other⟩ := of_decide_eq_true counts
  exact ⟨given, other, slash_not_mem_names path name named⟩

/-- A path is its names with a slash before each but the first. -/
theorem eq_of_names {path : Path} {first : Bytes} {others : List Bytes} (cut : path.names = first :: others) :
    path = first ++ ofComponents others := by
  induction path generalizing first others with
  | nil =>
    obtain ⟨rfl, rfl⟩ := List.cons.inj cut
    rfl
  | cons b rest inductionHypothesis =>
    unfold names Text.fields at cut
    split at cut
    · rename_i slashed
      obtain ⟨rfl, rfl⟩ := List.cons.inj cut
      obtain ⟨next, later, parts⟩ := List.exists_cons_of_ne_nil (Text.fields_ne_nil (· == slash) rest)
      rw [parts, beq_iff_eq.mp slashed]
      exact congrArg (slash :: ·) (inductionHypothesis parts)
    · rename_i cut'
      exact absurd cut' (Text.fields_ne_nil _ rest)
    · rename_i next later _ cut'
      obtain ⟨rfl, rfl⟩ := List.cons.inj cut
      exact congrArg (b :: ·) (inductionHypothesis cut')

/-- A path that is written with names behind slashes starts at the root, and has these names. -/
theorem rooted_of_names {names : List Bytes} (given : names ≠ []) (plain : ∀ name ∈ names, slash ∉ name) :
    let whole := ofComponents names
    whole ≠ [] ∧ whole.isAbsolute = true ∧ whole.names = [] :: names := by
  obtain ⟨name, later, rfl⟩ := List.exists_cons_of_ne_nil given
  have begins : ofComponents (name :: later) = slash :: (name ++ ofComponents later) := rfl
  refine ⟨?_, ?_, names_ofComponents plain⟩
  · simp [begins]
  · rw [begins]
    rfl

/-- Without the first slash it does not start at the root. -/
theorem relative_of_names {names : List Bytes} (given : names ≠ []) (plain : ∀ name ∈ names, slash ∉ name)
    (nonempty : ∀ name ∈ names, name ≠ []) :
    let written : Path := (ofComponents names).drop 1
    written ≠ [] ∧ written.isAbsolute = false ∧ written.names = names := by
  obtain ⟨name, later, rfl⟩ := List.exists_cons_of_ne_nil given
  have begins : (ofComponents (name :: later)).drop 1 = name ++ ofComponents later := rfl
  obtain ⟨unslashed, unslashed'⟩ := List.forall_mem_cons.mp plain
  obtain ⟨b, rest, rfl⟩ := List.exists_cons_of_ne_nil (nonempty name List.mem_cons_self)
  have relative : b ≠ slash := fun equal => unslashed (equal ▸ List.mem_cons_self)
  intro written
  refine ⟨?_, ?_, ?_⟩
  · simp [written, begins]
  · simp [written, begins, isAbsolute, relative]
  · exact names_append_ofComponents unslashed' unslashed

/-- A path that starts at the root has an empty first name. -/
theorem first_of_isAbsolute {path : Path} {first : Bytes} {others : List Bytes}
    (cut : path.names = first :: others) (absolute : path.isAbsolute = true) : first = [] := by
  cases first with
  | nil => rfl
  | cons b rest =>
    rw [eq_of_names cut] at absolute
    have begins : b = slash := by simpa [isAbsolute] using absolute
    exact absurd (begins ▸ List.mem_cons_self)
      (slash_not_mem_names path (b :: rest) (by rw [cut]; exact List.mem_cons_self))

/-- The path of what stands before the last name: it is written with the names that count, starts as the
whole path does, and holds no other bytes. -/
theorem prefix_written {path : Path} {above : List Bytes} {last : Bytes}
    (cut : path.names = above ++ [last]) (some_ : above.filter Counts ≠ []) :
    let whole := ofComponents (above.filter Counts)
    let written := if path.isAbsolute then whole else whole.drop 1
    List.Sublist written path ∧ written ≠ [] ∧ written.isAbsolute = path.isAbsolute ∧
      (written.names = above.filter Counts ∨ written.names = [] :: above.filter Counts) := by
  intro whole written
  obtain ⟨first, others, rfl⟩ : ∃ first others, above = first :: others :=
    List.exists_cons_of_ne_nil (by rintro rfl; exact some_ rfl)
  have parts : path = first ++ ofComponents (others ++ [last]) := eq_of_names cut
  have plain : ∀ name ∈ (first :: others).filter Counts, slash ∉ name := fun name among =>
    slash_not_mem_names path name (cut ▸ List.mem_append_left _ (List.mem_filter.mp among).1)
  have nonempty : ∀ name ∈ (first :: others).filter Counts, name ≠ [] := fun name among =>
    (of_decide_eq_true (List.mem_filter.mp among).2).1
  by_cases absolute : path.isAbsolute = true
  · obtain rfl : first = [] := first_of_isAbsolute cut absolute
    have same : written = whole := if_pos absolute
    obtain ⟨given, rooted, named⟩ := rooted_of_names some_ plain
    rw [same, absolute]
    refine ⟨?_, given, rooted, .inr named⟩
    have skipped : ([] :: others).filter Counts = others.filter Counts := by simp
    change List.Sublist (ofComponents _) _
    rw [parts, List.nil_append, skipped]
    exact (List.filter_sublist.trans (List.sublist_append_left _ _)).flatMap _
  · have same : written = whole.drop 1 := if_neg absolute
    obtain ⟨given, relative, named⟩ := relative_of_names some_ plain nonempty
    rw [same, Bool.eq_false_iff.mpr absolute]
    refine ⟨?_, given, relative, .inl named⟩
    have fewer : List.Sublist ((first :: others).filter Counts) (first :: (others ++ [last])) :=
      List.filter_sublist.trans (by simp)
    rw [parts]
    exact (fewer.flatMap _).drop 1

end Path

namespace Disk

/-! ## Following a path to its last name -/

/-- Following names to somewhere is following the first of them to a folder, unless they end with nothing
left. -/
theorem walk_above {links : Nat} {place : Place} {asked : Bool} {names more : List Bytes} {target : Target}
    (found : walk true links place asked (names ++ more) = .ok target)
    (there : ∀ at_ name slashed, target ≠ .vacant at_ name slashed)
    (further : more = [] → ∃ at_ listable, target = .folder at_ listable) :
    ∃ final listable, walk true links place asked names = .ok (.folder final listable) := by
  fun_induction walk true links place asked names with
  | case1 links place asked => exact ⟨place, asked, rfl⟩
  | case2 links place asked name rest idle inductionHypothesis =>
    rw [List.cons_append, walk, if_pos idle] at found
    exact inductionHypothesis found
  | case3 links place asked rest counts inductionHypothesis =>
    rw [List.cons_append, walk, if_neg counts, if_pos rfl] at found
    exact inductionHypothesis found
  | case4 links place asked name rest counts below long =>
    rw [List.cons_append, walk, if_neg counts, if_neg below, if_pos long] at found
    exact absurd found (by simp)
  | case5 links place asked name rest counts below short vacant
  | case6 links place asked name rest counts below short vacant =>
    rw [List.cons_append, walk, if_neg counts, if_neg below, if_neg short] at found
    simp only [vacant] at found
    split at found
    · exact absurd (Except.ok.inj found).symm (there _ _ _)
    · exact absurd found (by simp)
  | case7 links place asked name rest counts below short listable inner met inductionHypothesis =>
    rw [List.cons_append, walk, if_neg counts, if_neg below, if_neg short, met] at found
    exact inductionHypothesis found
  | case8 links place asked name rest _ _ _ target' _ unfollowed => exact absurd rfl unfollowed.2
  | case9 place asked name rest counts below short target' met =>
    rw [List.cons_append, walk, if_neg counts, if_neg below, if_neg short] at found
    simp only [met, not_true_eq_false, and_false, if_false] at found
    exact absurd found (by simp)
  | case10 place asked name rest counts below short further left met =>
    rw [List.cons_append, walk, if_neg counts, if_neg below, if_neg short] at found
    simp only [met, not_true_eq_false, and_false, if_false, if_true] at found
    exact absurd found (by simp)
  | case11 place asked name rest counts below short target' met _ links given start inductionHypothesis =>
    rw [List.cons_append, walk, if_neg counts, if_neg below, if_neg short] at found
    simp only [met, not_true_eq_false, and_false, if_false, if_neg given] at found
    rw [← List.append_assoc] at found
    exact inductionHypothesis found
  | case12 links place asked name counts below short single other met
  | case13 links place asked name rest counts below short single other met =>
    rw [List.cons_append, walk, if_neg counts, if_neg below, if_neg short] at found
    simp only [met] at found
    split at found
    · rename_i nothing
      obtain ⟨at_, listable, folder⟩ := further (List.append_eq_nil_iff.mp nothing).2
      obtain rfl := Except.ok.inj found
      exact absurd folder (by simp)
    · exact absurd found (by simp)

/-- A path that leads to a leaf has a last name, which leads somewhere and not up. -/
theorem walk_last_counts {links : Nat} {place : Place} {asked : Bool} {names : List Bytes} {at_ : Place}
    {name : Bytes} {single : Leaf} (found : walk true links place asked names = .ok (.leaf at_ name single)) :
    ∃ above last, names = above ++ [last] ∧ Path.Counts last := by
  fun_induction walk true links place asked names with
  | case1 links place asked => exact absurd found (by simp)
  | case2 links place asked first rest idle inductionHypothesis =>
    obtain ⟨above, last, rfl, real⟩ := inductionHypothesis found
    exact ⟨first :: above, last, rfl, real⟩
  | case3 links place asked rest counts inductionHypothesis =>
    obtain ⟨above, last, rfl, real⟩ := inductionHypothesis found
    exact ⟨Path.parent :: above, last, rfl, real⟩
  | case4 | case5 | case6 | case9 | case10 | case13 => exact absurd found (by simp)
  | case7 links place asked first rest counts below short listable inner met inductionHypothesis =>
    obtain ⟨above, last, rfl, real⟩ := inductionHypothesis found
    exact ⟨first :: above, last, rfl, real⟩
  | case8 links place asked name rest _ _ _ target' _ unfollowed => exact absurd rfl unfollowed.2
  | case11 place asked first rest counts below short target' met _ links given start inductionHypothesis =>
    obtain ⟨above, last, same, real⟩ := inductionHypothesis found
    rcases List.eq_nil_or_concat rest with rfl | ⟨front, final, rfl⟩
    · exact ⟨[], first, rfl, not_or.mp counts⟩
    · rw [List.concat_eq_append] at same ⊢
      rw [← List.append_assoc] at same
      obtain rfl : final = last := by simpa using (List.append_inj' same rfl).2
      exact ⟨first :: front, final, rfl, real⟩
  | case12 links place asked first counts below short single' other met =>
    exact ⟨[], first, rfl, not_or.mp counts⟩

/-- Names that lead nowhere else can be left out on the way to a folder. -/
theorem walk_components {links : Nat} {place final : Place} {asked listable : Bool} {names : List Bytes}
    (found : walk true links place asked names = .ok (.folder final listable)) :
    walk true links place asked (names.filter Path.Counts) = .ok (.folder final listable) := by
  induction names generalizing links place asked with
  | nil => exact found
  | cons name rest inductionHypothesis =>
    by_cases counts : Path.Counts name
    · have found' : walk true links place asked ([name] ++ rest) = .ok (.folder final listable) := found
      obtain ⟨middle, passable, first⟩ := walk_above found' (by simp) (fun _ => ⟨final, listable, rfl⟩)
      obtain ⟨left, goes⟩ := @walk_through passable links place middle asked [name] [] rfl first
      have behind := goes rest
      rw [List.singleton_append, found] at behind
      rw [List.filter_cons_of_pos (by simpa using counts), ← List.singleton_append, goes]
      exact inductionHypothesis behind.symm
    · have idle : name = [] ∨ name = Path.current :=
        Decidable.or_iff_not_imp_left.mpr fun nonempty =>
          Decidable.not_not.mp fun other => counts ⟨nonempty, other⟩
      rw [walk, if_pos idle] at found
      rw [List.filter_cons_of_neg (by simpa using counts)]
      exact inductionHypothesis found

/-- Without following the last link, a path to a folder leads to the folder or to a link. -/
theorem walk_unfollowed {links : Nat} {place final : Place} {asked listable : Bool} {names : List Bytes}
    (found : walk true links place asked names = .ok (.folder final listable)) :
    ∃ target, walk false links place asked names = .ok target ∧
      ∀ at_ name slashed, target ≠ .vacant at_ name slashed := by
  fun_induction walk true links place asked names with
  | case1 links place asked => exact ⟨_, by rw [walk], by simp⟩
  | case2 links place asked name rest idle inductionHypothesis =>
    rw [walk, if_pos idle]
    exact inductionHypothesis found
  | case3 links place asked rest counts inductionHypothesis =>
    rw [walk, if_neg counts, if_pos rfl]
    exact inductionHypothesis found
  | case4 | case5 | case6 | case9 | case10 | case12 | case13 => exact absurd found (by simp)
  | case7 links place asked name rest counts below short listable inner met inductionHypothesis =>
    rw [walk, if_neg counts, if_neg below, if_neg short, met]
    exact inductionHypothesis found
  | case8 links place asked name rest _ _ _ target _ unfollowed => exact absurd rfl unfollowed.2
  | case11 place asked name rest counts below short target met _ links given start inductionHypothesis =>
    rw [walk, if_neg counts, if_neg below, if_neg short]
    simp only [met, Bool.false_eq_true, not_false_eq_true, and_true, if_neg given]
    by_cases last : rest = []
    · exact ⟨_, if_pos last, by simp⟩
    · rw [if_neg last]
      exact inductionHypothesis found

/-! ## Making folders that are there -/

variable {disk : Disk} {path : Path}

/-- A folder that is there is not made again. -/
theorem makeFolders_of_folder {place : Place} {listable : Bool}
    (found : disk.locate true path = .ok (.folder place listable)) (above : List Path) :
    disk.makeFolders (path :: above) = (.ok (), disk) := by
  obtain ⟨target, unfollowed, there⟩ := walk_unfollowed ((locate_eq_walk found disk).symm.trans found)
  have located : disk.locate false path = .ok target := by
    obtain ⟨plain, given, short⟩ := locate_eq_ok found
    rw [locate, if_neg plain, if_neg given, if_neg short]
    exact unfollowed
  have made : disk.makeFolder path = .error (.system ErrorNumber.fileExists) := by
    unfold makeFolder
    rw [located]
    cases target with
    | folder at_ listable => rfl
    | leaf at_ name single => rfl
    | vacant at_ name slashed => exact absurd rfl (there at_ name slashed)
  have cause : (Failure.system ErrorNumber.fileExists).cause ≠ .notFound := by decide
  have isFolder : disk.isFolder path = true := by
    unfold Disk.isFolder
    rw [found]
  unfold makeFolders
  simp only [made, if_neg cause, isFolder, if_true]

/-- The folders that a leaf is in are there, so to make them changes nothing. -/
theorem ensureParent_of_leaf {place : Place} {name : Bytes} {single : Leaf}
    (found : disk.locate true path = .ok (.leaf place name single)) :
    disk.ensureParent path = (.ok (), disk) := by
  obtain ⟨plain, given, short⟩ := locate_eq_ok found
  have walked := (locate_eq_walk found disk).symm.trans found
  obtain ⟨above, last, cut, counts⟩ := walk_last_counts walked
  have components : path.components = above.filter Path.Counts ++ [last] := by
    unfold Path.components
    rw [cut, List.filter_append, List.filter_cons_of_pos (by simpa using counts)]
    rfl
  unfold ensureParent Path.ancestors
  rw [components, List.reverse_append]
  change disk.makeFolders (Path.prefixes path (above.filter Path.Counts).reverse) = _
  by_cases alone : above.filter Path.Counts = []
  · rw [alone]
    rfl
  · obtain ⟨sublist, written, starts, names⟩ := Path.prefix_written cut alone
    obtain ⟨next, others, reversed⟩ := List.exists_cons_of_ne_nil (List.reverse_ne_nil_iff.mpr alone)
    have whole : (next :: others).reverse = above.filter Path.Counts := by
      rw [← reversed, List.reverse_reverse]
    rw [reversed, Path.prefixes, whole]
    change disk.makeFolders ((if path.isAbsolute = true then Path.ofComponents (above.filter Path.Counts)
      else (Path.ofComponents (above.filter Path.Counts)).drop 1) :: _) = _
    rw [cut] at walked
    obtain ⟨final, listable, folder⟩ := walk_above walked (by simp) (by simp)
    have reached := walk_components folder
    generalize (if path.isAbsolute = true then Path.ofComponents (above.filter Path.Counts)
      else (Path.ofComponents (above.filter Path.Counts)).drop 1) = parent at *
    refine @makeFolders_of_folder disk parent final listable ?_ _
    have plain' : ¬ parent.any (· = 0) = true := by
      intro holds
      obtain ⟨b, among, zero⟩ := List.any_eq_true.mp holds
      exact plain (List.any_eq_true.mpr ⟨b, sublist.subset among, zero⟩)
    have short' : ¬ pathBound ≤ parent.length := by
      have := sublist.length_le
      omega
    rw [locate, if_neg plain', if_neg written, if_neg short', starts]
    rcases names with names | names
    · rw [names, reached]
    · rw [names, walk, if_pos (.inl rfl), reached]

end Disk

end LspProxy
