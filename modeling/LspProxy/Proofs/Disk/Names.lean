import LspProxy.Proofs.Disk.Places

/-!
# Names, and the paths below a folder

A path is followed name by name, so the path of an entry of a folder, which is the path of the folder with
a name behind it, leads to that entry, if what stands behind the slash is a name that an entry may have
(`Path.IsName`). That the path of the folder may lead through links, climb and end with a slash makes no
difference: following it comes to one place, with some links left, and goes on from there
(`walk_through`).

So a folder that has been met while another was listed is the one that its path opens, or the path is too
long, or the folder refuses to be listed (`openFolder_join`).
-/
namespace LspProxy

namespace Text

variable {α : Type} {isSeparator : α → Bool}

/-- A separator cuts a sequence into its fields before and after. -/
theorem fields_append_separator {mark : α} (separates : isSeparator mark = true) (first rest : List α) :
    fields isSeparator (first ++ mark :: rest) = fields isSeparator first ++ fields isSeparator rest := by
  induction first with
  | nil => simp [fields, separates]
  | cons a others inductionHypothesis =>
    rw [List.cons_append, fields, fields, inductionHypothesis]
    cases isSeparator a with
    | true => rfl
    | false =>
      cases cut : fields isSeparator others with
      | nil => exact absurd cut (fields_ne_nil isSeparator others)
      | cons field fields => rfl

end Text

namespace Path

variable {path : Path} {name : Bytes}

/-- Without a slash nothing separates. -/
theorem inseparable_of_unslashed (unslashed : slash ∉ name) : ∀ b ∈ name, (b == slash) = false := by
  intro b among
  rw [beq_eq_false_iff_ne]
  rintro rfl
  exact unslashed among

theorem fields_of_unslashed (unslashed : slash ∉ name) : Text.fields (· == slash) name = [name] :=
  Text.fields_eq_singleton (inseparable_of_unslashed unslashed)

theorem relative_of_unslashed (unslashed : slash ∉ name) : isAbsolute name = false := by
  cases name with
  | nil => rfl
  | cons b rest =>
    have differs : b ≠ slash := fun same => unslashed (same ▸ List.mem_cons_self)
    simpa [isAbsolute] using differs

/-- A name that an entry of a folder may have. -/
structure IsName (name : Bytes) : Prop where
  nonempty : name ≠ []
  notCurrent : name ≠ current
  notParent : name ≠ parent
  unslashed : slash ∉ name
  plain : 0 ∉ name
  short : name.length ≤ Disk.nameLimit

instance (name : Bytes) : Decidable (IsName name) :=
  decidable_of_iff (name ≠ [] ∧ name ≠ current ∧ name ≠ parent ∧ slash ∉ name ∧ 0 ∉ name ∧
      name.length ≤ Disk.nameLimit)
    ⟨fun ⟨nonempty, notCurrent, notParent, unslashed, plain, short⟩ =>
        ⟨nonempty, notCurrent, notParent, unslashed, plain, short⟩,
      fun isName => ⟨isName.nonempty, isName.notCurrent, isName.notParent, isName.unslashed,
        isName.plain, isName.short⟩⟩

theorem IsName.fields (isName : IsName name) : Text.fields (· == slash) name = [name] :=
  fields_of_unslashed isName.unslashed

theorem IsName.relative (isName : IsName name) : isAbsolute name = false :=
  relative_of_unslashed isName.unslashed

/-- What stands before the name behind a path: the path, and a slash if it does not end with one. -/
theorem join_eq (isName : IsName name) (given : path ≠ []) :
    ∃ above : Path, path.join name = above ++ slash :: name ∧
      (path = above ∨ path = above ++ [slash]) := by
  unfold join
  rw [if_neg (by rw [isName.relative]; exact Bool.false_ne_true)]
  by_cases slashed : path.getLast? = some slash
  · rw [if_pos (.inr slashed)]
    obtain ⟨above, rfl⟩ := List.getLast?_eq_some_iff.mp slashed
    exact ⟨above, by simp, .inr rfl⟩
  · rw [if_neg (not_or.mpr ⟨given, slashed⟩)]
    exact ⟨path, rfl, .inl rfl⟩

/-- The names of the path of an entry are those of the folder's path and its own, in place of the empty one
that a slash at the end has left. -/
theorem names_join (isName : IsName name) (given : path ≠ []) :
    ∃ above idle, path.names = above ++ idle ∧ (path.join name).names = above ++ [name] ∧
      idle.all List.isEmpty = true := by
  obtain ⟨above, joined, same | slashed⟩ := join_eq isName given
  · refine ⟨above.names, [], by rw [same, List.append_nil], ?_, rfl⟩
    rw [joined, names, Text.fields_append_separator rfl, isName.fields]
    rfl
  · refine ⟨above.names, [[]], ?_, ?_, rfl⟩
    · rw [slashed, names, Text.fields_append_separator rfl]
      rfl
    · rw [joined, names, Text.fields_append_separator rfl, isName.fields]
      rfl

/-- An entry has one component more than its folder. -/
theorem components_join (isName : IsName name) (given : path ≠ []) :
    (path.join name).components = path.components ++ [name] := by
  obtain ⟨above, idle, names, names', empty⟩ := names_join isName given
  have counts : [name].filter (fun name => decide (name ≠ [] ∧ name ≠ current)) = [name] := by
    simp [isName.nonempty, isName.notCurrent]
  have none : idle.filter (fun name => decide (name ≠ [] ∧ name ≠ current)) = [] := by
    rw [List.filter_eq_nil_iff]
    intro name among
    have := List.all_eq_true.mp empty name among
    simp_all
  unfold components
  rw [names, names', List.filter_append, List.filter_append, none, List.append_nil, counts]

theorem join_ne_nil (isName : IsName name) (given : path ≠ []) : path.join name ≠ [] := by
  obtain ⟨above, joined, _⟩ := join_eq isName given
  simp [joined]

/-- The path of an entry starts as the path of its folder. -/
theorem isAbsolute_join (isName : IsName name) (given : path ≠ []) :
    (path.join name).isAbsolute = path.isAbsolute := by
  obtain ⟨b, rest, rfl⟩ := List.exists_cons_of_ne_nil given
  unfold join
  rw [if_neg (by rw [isName.relative]; exact Bool.false_ne_true)]
  split <;> rfl

/-- The path of an entry holds a NUL only if the path of its folder does. -/
theorem any_join (isName : IsName name) (given : path ≠ []) :
    (path.join name).any (· = 0) = path.any (· = 0) := by
  have plain : name.any (· = 0) = false := by
    rw [List.any_eq_false]
    rintro b among zero
    exact isName.plain (of_decide_eq_true zero ▸ among)
  obtain ⟨above, joined, same | slashed⟩ := join_eq isName given
  · rw [joined, same, List.any_append, List.any_cons, plain]
    simp [slash]
  · rw [joined, slashed, List.any_append, List.any_cons, plain, List.any_append]
    simp [slash]

end Path

/-! ## Trees with names -/

namespace Folder

variable {name : Bytes} {names : List Bytes} {here inner : Folder} {listable : Bool}

/-- Every entry of the tree has a name, and no two entries of one folder have the same. -/
def WellNamed : Folder → Prop
  | empty => True
  | leaf name _ others => Path.IsName name ∧ others.find? name = none ∧ others.WellNamed
  | folder name _ inner others =>
    Path.IsName name ∧ others.find? name = none ∧ inner.WellNamed ∧ others.WellNamed

instance decidableWellNamed : (folder : Folder) → Decidable folder.WellNamed
  | empty => .isTrue trivial
  | leaf _ _ others =>
    have := decidableWellNamed others
    inferInstanceAs (Decidable (_ ∧ _ ∧ _))
  | folder _ _ inner others =>
    have := decidableWellNamed inner
    have := decidableWellNamed others
    inferInstanceAs (Decidable (_ ∧ _ ∧ _ ∧ _))

theorem WellNamed.isName {entry : Entry} (named : here.WellNamed) (found : here.find? name = some entry) :
    Path.IsName name := by
  induction here with
  | empty => exact absurd found (by simp [Folder.find?])
  | leaf first old others inductionHypothesis =>
    by_cases same : first = name
    · exact same ▸ named.1
    · rw [Folder.find?, if_neg same] at found
      exact inductionHypothesis named.2.2 found
  | folder first listable inner others _ inductionHypothesis =>
    by_cases same : first = name
    · exact same ▸ named.1
    · rw [Folder.find?, if_neg same] at found
      exact inductionHypothesis named.2.2.2 found

theorem WellNamed.find? (named : here.WellNamed)
    (found : here.find? name = some (.folder listable inner)) : inner.WellNamed := by
  induction here with
  | empty => exact absurd found (by simp [Folder.find?])
  | leaf first old others inductionHypothesis =>
    by_cases same : first = name
    · exact absurd found (by simp [Folder.find?, same])
    · rw [Folder.find?, if_neg same] at found
      exact inductionHypothesis named.2.2 found
  | folder first listable' below others _ inductionHypothesis =>
    by_cases same : first = name
    · rw [Folder.find?, if_pos same] at found
      obtain ⟨_, rfl⟩ := Entry.folder.inj (Option.some.inj found)
      exact named.2.2.1
    · rw [Folder.find?, if_neg same] at found
      exact inductionHypothesis named.2.2.2 found

theorem WellNamed.reach? (named : here.WellNamed) (reached : here.reach? names = some inner) :
    inner.WellNamed := by
  induction names generalizing here with
  | nil =>
    obtain rfl := Option.some.inj reached
    exact named
  | cons name names inductionHypothesis =>
    unfold Folder.reach? at reached
    split at reached
    · rename_i listable middle found
      exact inductionHypothesis (named.find? found) reached
    · exact absurd reached (by simp)

end Folder

namespace Disk

variable {disk : Disk} {path : Path} {name : Bytes} {folder inner : Folder} {listable : Bool}

/-! ## Following a path to a folder and on -/

/-- Empty names lead nowhere else. -/
theorem walk_idle {follow : Bool} {links : Nat} {place : Place} {names : List Bytes}
    (idle : names.all List.isEmpty = true) :
    walk follow links place listable names = .ok (.folder place listable) := by
  induction names with
  | nil => rw [walk]
  | cons name names inductionHypothesis =>
    rw [List.all_cons, Bool.and_eq_true, List.isEmpty_iff] at idle
    rw [walk, if_pos (.inl idle.1)]
    exact inductionHypothesis idle.2

/-- Names that lead to a folder are followed by others as from there, whatever stood behind them before,
if that led nowhere else. -/
theorem walk_through {links : Nat} {place final : Place} {asked : Bool} {names idle : List Bytes}
    (empty : idle.all List.isEmpty = true)
    (found : walk true links place asked (names ++ idle) = .ok (.folder final listable)) :
    ∃ left, ∀ more, walk true links place asked (names ++ more) = walk true left final listable more := by
  fun_induction walk true links place asked names with
  | case1 links place asked =>
    rw [List.nil_append, walk_idle empty] at found
    obtain ⟨rfl, rfl⟩ := Target.folder.inj (Except.ok.inj found)
    exact ⟨links, fun more => rfl⟩
  | case2 links place asked name rest still inductionHypothesis =>
    rw [List.cons_append, walk, if_pos still] at found
    obtain ⟨left, goes⟩ := inductionHypothesis found
    refine ⟨left, fun more => ?_⟩
    rw [List.cons_append, walk, if_pos still, goes]
  | case3 links place asked rest counts inductionHypothesis =>
    rw [List.cons_append, walk, if_neg counts, if_pos rfl] at found
    obtain ⟨left, goes⟩ := inductionHypothesis found
    refine ⟨left, fun more => ?_⟩
    rw [List.cons_append, walk, if_neg counts, if_pos rfl, goes]
  | case4 links place asked name rest counts below long =>
    rw [List.cons_append, walk, if_neg counts, if_neg below, if_pos long] at found
    exact absurd found (by simp)
  | case5 links place asked name rest counts below short vacant
  | case6 links place asked name rest counts below short vacant =>
    rw [List.cons_append, walk, if_neg counts, if_neg below, if_neg short] at found
    simp only [vacant] at found
    split at found <;> exact absurd found (by simp)
  | case7 links place asked name rest counts below short listable inner met inductionHypothesis =>
    rw [List.cons_append, walk, if_neg counts, if_neg below, if_neg short, met] at found
    obtain ⟨left, goes⟩ := inductionHypothesis found
    refine ⟨left, fun more => ?_⟩
    rw [List.cons_append, walk, if_neg counts, if_neg below, if_neg short, met]
    exact goes more
  | case8 links place asked name rest _ _ _ target _ unfollowed => exact absurd rfl unfollowed.2
  | case9 place asked name rest counts below short target met =>
    rw [List.cons_append, walk, if_neg counts, if_neg below, if_neg short] at found
    simp only [met, not_true_eq_false, and_false, if_false] at found
    exact absurd found (by simp)
  | case10 place asked name rest counts below short further left met =>
    rw [List.cons_append, walk, if_neg counts, if_neg below, if_neg short] at found
    simp only [met, not_true_eq_false, and_false, if_false, if_true] at found
    exact absurd found (by simp)
  | case11 place asked name rest counts below short target met _ links given start inductionHypothesis =>
    rw [List.cons_append, walk, if_neg counts, if_neg below, if_neg short] at found
    simp only [met, not_true_eq_false, and_false, if_false, if_neg given] at found
    rw [← List.append_assoc] at found
    obtain ⟨left, goes⟩ := inductionHypothesis found
    refine ⟨left, fun more => ?_⟩
    rw [List.cons_append, walk, if_neg counts, if_neg below, if_neg short]
    simp only [met, not_true_eq_false, and_false, if_false, if_neg given]
    rw [← List.append_assoc]
    exact goes more
  | case12 links place asked name counts below short single other met
  | case13 links place asked name rest counts below short single other met =>
    rw [List.cons_append, walk, if_neg counts, if_neg below, if_neg short] at found
    simp only [met] at found
    split at found <;> exact absurd found (by simp)

/-- Listing a folder is asking for the place that its path leads to. -/
theorem openFolder_eq_ok_iff :
    disk.openFolder path = .ok folder ↔
      ∃ place, disk.locate true path = .ok (.folder place true) ∧ place.folder = folder := by
  unfold openFolder
  constructor
  · intro opened
    split at opened
    · exact absurd opened (by simp)
    · rename_i place located
      exact ⟨place, located, Except.ok.inj opened⟩
    all_goals exact absurd opened (by simp)
  · rintro ⟨place, located, rfl⟩
    rw [located]

/-- A path that leads somewhere holds no NUL, is not empty and is short enough. -/
theorem locate_eq_ok {follow : Bool} {target : Target} (located : disk.locate follow path = .ok target) :
    ¬ path.any (· = 0) = true ∧ path ≠ [] ∧ ¬ pathBound ≤ path.length := by
  unfold locate at located
  split at located
  · exact absurd located (by simp)
  · rename_i plain
    split at located
    · exact absurd located (by simp)
    · rename_i given
      split at located
      · exact absurd located (by simp)
      · rename_i short
        exact ⟨plain, given, short⟩

/-- The path of a folder in the one that a path leads to leads there, unless it is too long. -/
theorem locate_join {place : Place} {listed : Bool}
    (located : disk.locate true path = .ok (.folder place listed)) (isName : Path.IsName name)
    (met : place.folder.find? name = some (.folder listable inner)) :
    disk.locate true (path.join name) =
      if pathBound ≤ (path.join name).length then .error (.system ErrorNumber.nameTooLong)
      else .ok (.folder (place.enter name inner) listable) := by
  obtain ⟨plain, given, short⟩ := locate_eq_ok located
  obtain ⟨above, idle, names, names', empty⟩ := Path.names_join isName given
  unfold locate at located ⊢
  rw [if_neg plain, if_neg given, if_neg short, names] at located
  rw [Path.any_join isName given, if_neg plain, if_neg (Path.join_ne_nil isName given),
    Path.isAbsolute_join isName given, names']
  obtain ⟨left, goes⟩ := walk_through empty located
  rw [goes, walk, if_neg (not_or.mpr ⟨isName.nonempty, isName.notCurrent⟩), if_neg isName.notParent,
    if_neg (Nat.not_lt.mpr isName.short), met]
  simp only [walk]

/-- A folder that is met in a listing is what its path opens, unless the path is too long or the folder
refuses. -/
theorem openFolder_join (opened : disk.openFolder path = .ok folder) (isName : Path.IsName name)
    (met : folder.find? name = some (.folder listable inner)) :
    disk.openFolder (path.join name) =
      if pathBound ≤ (path.join name).length then .error (.system ErrorNumber.nameTooLong)
      else if listable then .ok inner
      else .error (.system ErrorNumber.accessDenied) := by
  obtain ⟨place, located, rfl⟩ := openFolder_eq_ok_iff.mp opened
  unfold openFolder
  rw [locate_join located isName met]
  by_cases long : pathBound ≤ (path.join name).length
  · simp [long]
  · cases listable with
    | true => simp [long, Place.enter, Place.folder]
    | false => simp [long]

/-! ## Absolute paths -/

/-- What an absolute path opens is a folder of the tree. -/
theorem wellNamed_openFolder (named : disk.root.WellNamed) (absolute : path.isAbsolute = true)
    (opened : disk.openFolder path = .ok folder) : folder.WellNamed := by
  obtain ⟨place, located, rfl⟩ := openFolder_eq_ok_iff.mp opened
  obtain ⟨sound, root⟩ := locate_sound absolute located
  exact named.reach? (root ▸ sound.reach)

/-- A path below one that starts at the root starts there too. -/
theorem isAbsolute_join_left (absolute : path.isAbsolute = true) (below : Path) :
    (path.join below).isAbsolute = true := by
  unfold Path.join
  split
  · assumption
  · cases path with
    | nil => exact absurd absolute (by simp [Path.isAbsolute])
    | cons b rest => split <;> exact absolute

/-- The path of the working folder starts at the root. -/
theorem isAbsolute_workingPath {start : Path} (known : disk.workingPath = .ok start) :
    start.isAbsolute = true := by
  unfold workingPath at known
  split at known
  · exact absurd known (by simp)
  · split at known
    · obtain rfl := Except.ok.inj known
      rfl
    · rename_i below
      obtain rfl := Except.ok.inj known
      obtain ⟨name, names, same⟩ := List.exists_cons_of_ne_nil below
      rw [same]
      rfl

/-- A path made absolute starts at the root. -/
theorem isAbsolute_absolute {whole : Path} (made : disk.absolute path = .ok whole) :
    whole.isAbsolute = true := by
  have below (start : Path) (absolute : start.isAbsolute = true) :
      (path.components.foldl Path.join start).isAbsolute = true := by
    induction path.components generalizing start with
    | nil => exact absolute
    | cons name names inductionHypothesis =>
      exact inductionHypothesis _ (isAbsolute_join_left absolute name)
  have finish {start : Path} (absolute : start.isAbsolute = true)
      (made : (if path.getLast? = some Path.slash then
        Path.join (path.components.foldl Path.join start) [] else path.components.foldl Path.join start) =
          whole) : whole.isAbsolute = true := by
    subst made
    split
    · exact isAbsolute_join_left (below start absolute) []
    · exact below start absolute
  unfold Disk.absolute at made
  by_cases absolute : path.isAbsolute = true
  · rw [if_neg (not_not_intro absolute)] at made
    by_cases two : path.takeWhile (· = Path.slash) = [Path.slash, Path.slash]
    · rw [if_pos two] at made
      exact finish rfl (Except.ok.inj made)
    · rw [if_neg two] at made
      exact finish rfl (Except.ok.inj made)
  · rw [if_pos absolute] at made
    cases known : disk.workingPath with
    | error failure =>
      rw [known] at made
      exact absurd made (by rintro ⟨⟩)
    | ok start =>
      rw [known] at made
      exact finish (isAbsolute_workingPath known) (Except.ok.inj made)

end Disk

end LspProxy
