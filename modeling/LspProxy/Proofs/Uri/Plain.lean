import LspProxy.Proofs.Json.Strings
import LspProxy.Proofs.Uri.FilePath
import Mathlib

/-!
# Plain paths in URIs

A name of letters, digits and a few marks is taken as it stands: nothing in it is dropped, cut, unescaped or
resolved. So a path of such names has just these names for its segments (`readPath_plain`), and the path that
the segments stand for is the text again (`pathOf_plain`).
-/
namespace LspProxy.Uri

/-! ## Plain names -/

/-- A character that stands for itself wherever it is in a URI. -/
def isPlain (c : Char) : Bool := c.isAlphanum || c = '-' || c = '_' || c = '.'

/-- A name that stands for itself as a segment of a path. -/
structure IsPlainName (name : List Char) : Prop where
  nonempty : name ≠ []
  plain : ∀ c ∈ name, isPlain c = true
  notCurrent : name ≠ ['.']
  notParent : name ≠ ['.', '.']

instance (name : List Char) : Decidable (IsPlainName name) :=
  decidable_of_iff (name ≠ [] ∧ name.all isPlain = true ∧ name ≠ ['.'] ∧ name ≠ ['.', '.'])
    ⟨fun ⟨nonempty, plain, notCurrent, notParent⟩ =>
        ⟨nonempty, List.all_eq_true.mp plain, notCurrent, notParent⟩,
      fun isPlain =>
        ⟨isPlain.nonempty, List.all_eq_true.mpr isPlain.plain, isPlain.notCurrent, isPlain.notParent⟩⟩

/-- The text of a path of names. -/
def pathText (names : List (List Char)) : List Char := names.flatMap ('/' :: ·)

/-- A plain character is one of ASCII. -/
theorem isPlain_ascii {c : Char} (plain : isPlain c = true) : c.toNat < 128 := by
  unfold isPlain at plain
  simp only [Bool.or_eq_true, decide_eq_true_eq] at plain
  rcases plain with ((plain | rfl) | rfl) | rfl
  · simp only [Char.isAlphanum, Char.isAlpha, Char.isUpper, Char.isLower, Char.isDigit,
      Bool.or_eq_true, Bool.and_eq_true, decide_eq_true_eq, UInt32.le_iff_toNat_le] at plain
    change c.val.toNat < 128
    rcases plain with (⟨_, below⟩ | ⟨_, below⟩) | ⟨_, below⟩
    · exact Nat.lt_of_le_of_lt below (by decide)
    · exact Nat.lt_of_le_of_lt below (by decide)
    · exact Nat.lt_of_le_of_lt below (by decide)
  · decide
  · decide
  · decide

/-- What holds of the plain characters one by one holds of each. -/
theorem forall_isPlain (property : Char → Bool)
    (every : (List.range 128).all (fun code => !isPlain (Char.ofNat code) || property (Char.ofNat code)))
    {c : Char} (plain : isPlain c = true) : property c = true := by
  have ascii := isPlain_ascii plain
  have here := List.all_eq_true.mp every c.toNat (List.mem_range.mpr ascii)
  rw [Char.ofNat_toNat, plain] at here
  exact here

theorem isPadding_of_isPlain {c : Char} (plain : isPlain c = true) : isPadding c = false :=
  forall_isPlain (isPadding · == false) (by decide +kernel) plain |> beq_iff_eq.mp

/-- A plain character separates nothing. -/
theorem endsAuthority_of_isPlain {c : Char} (backslashes : Bool) (plain : isPlain c = true) :
    endsAuthority backslashes c = false := by
  cases backslashes with
  | false => exact forall_isPlain (endsAuthority false · == false) (by decide +kernel) plain |> beq_iff_eq.mp
  | true => exact forall_isPlain (endsAuthority true · == false) (by decide +kernel) plain |> beq_iff_eq.mp

/-- In lower case it is plain, and a dot only if it was one. -/
theorem toLower_of_isPlain {c : Char} (plain : isPlain c = true) :
    isPlain c.toLower = true ∧ (c.toLower = '.' → c = '.') ∧ c.toLower ≠ '%' := by
  have lower := forall_isPlain
    (fun c => decide (isPlain c.toLower = true ∧ (c.toLower = '.' → c = '.') ∧ c.toLower ≠ '%'))
    (by decide +kernel) plain
  exact of_decide_eq_true lower

/-- It is no mark of an escape or of a drive. -/
theorem isDriveMark_of_isPlain {c : Char} (plain : isPlain c = true) :
    isDriveMark c = false ∧ UInt8.ofNat c.toNat ≠ Percent.mark ∧ UInt8.ofNat c.toNat ≠ 0x3A ∧
      UInt8.ofNat c.toNat ≠ 0x7C := by
  have marks := forall_isPlain (fun c => decide (isDriveMark c = false ∧
    UInt8.ofNat c.toNat ≠ Percent.mark ∧ UInt8.ofNat c.toNat ≠ 0x3A ∧ UInt8.ofNat c.toNat ≠ 0x7C))
    (by decide +kernel) plain
  exact of_decide_eq_true marks

/-! ## Reading a plain path -/

section

variable {first : List Char} {others names : List (List Char)}

theorem takeWhile_eq_self {α : Type} {property : α → Bool} {items : List α}
    (every : ∀ a ∈ items, property a = true) : items.takeWhile property = items := by
  rw [← List.append_nil items, List.takeWhile_append_of_pos every, List.takeWhile_nil]

theorem mem_pathText {c : Char} (plain : ∀ name ∈ names, IsPlainName name) (among : c ∈ pathText names) :
    c = '/' ∨ isPlain c = true := by
  obtain ⟨name, named, among⟩ := List.mem_flatMap.mp among
  exact (List.mem_cons.mp among).imp_right ((plain name named).plain c)

/-- A path is cut at its slashes. -/
theorem fields_pathText_of_unslashed {backslashes : Bool}
    (inside : ∀ name ∈ first :: others, ∀ c ∈ name, isSlash backslashes c = false) :
    Text.fields (isSlash backslashes) (first ++ pathText others) = first :: others := by
  induction others generalizing first with
  | nil =>
    rw [pathText, List.flatMap_nil, List.append_nil]
    exact Text.fields_eq_singleton (inside first List.mem_cons_self)
  | cons next others inductionHypothesis =>
    obtain ⟨inside', insides⟩ := List.forall_mem_cons.mp inside
    have text : pathText (next :: others) = '/' :: (next ++ pathText others) := rfl
    rw [text, Text.fields_append_cons inside' rfl, inductionHypothesis insides]

/-- A plain path is cut at its slashes. -/
theorem fields_pathText (backslashes : Bool) (plain : IsPlainName first)
    (plains : ∀ name ∈ others, IsPlainName name) :
    Text.fields (isSlash backslashes) (first ++ pathText others) = first :: others := by
  apply fields_pathText_of_unslashed
  intro name among c within
  have plain := List.forall_mem_cons.mpr ⟨plain, plains⟩ name among
  have ends := endsAuthority_of_isPlain backslashes (plain.plain c within)
  exact (Bool.or_eq_false_iff.mp ends).1

/-- Plain characters are a dot in lower case only if they are one. -/
theorem eq_dot_of_lower {name : List Char} (plain : ∀ c ∈ name, isPlain c = true)
    (dot : name.map Char.toLower = ['.']) : name = ['.'] := by
  obtain ⟨c, rest, rfl, single, empty⟩ := List.map_eq_cons_iff.mp dot
  obtain rfl := List.map_eq_nil_iff.mp empty
  rw [(toLower_of_isPlain (plain c List.mem_cons_self)).2.1 single]

/-- A plain name does not stand for the current place, unless it is a dot. -/
theorem isCurrent_plain {name : List Char} (plain : ∀ c ∈ name, isPlain c = true) (other : name ≠ ['.']) :
    isCurrent name = false := by
  unfold isCurrent
  rw [Bool.or_eq_false_iff, decide_eq_false_iff_not, decide_eq_false_iff_not]
  constructor
  · intro dot
    exact other (eq_dot_of_lower plain dot)
  · intro escaped
    obtain ⟨c, rest, rfl, percent, _⟩ := List.map_eq_cons_iff.mp escaped
    exact (toLower_of_isPlain (plain c List.mem_cons_self)).2.2 percent

/-- And it does not stand for the place above. -/
theorem isParent_plain (plain : IsPlainName first) : isParent first = false := by
  obtain ⟨_, plain, _, other⟩ := plain
  unfold isParent
  split
  · rename_i rest lower
    obtain ⟨c, later, rfl, dot, rfl⟩ := List.map_eq_cons_iff.mp lower
    obtain ⟨plain', plains⟩ := List.forall_mem_cons.mp plain
    obtain rfl := (toLower_of_isPlain plain').2.1 dot
    apply isCurrent_plain
    · intro c among
      obtain ⟨upper, later, rfl⟩ := List.mem_map.mp among
      exact (toLower_of_isPlain (plains upper later)).1
    · intro dot
      exact other (congrArg _ (eq_dot_of_lower plains dot))
  · rename_i rest lower
    obtain ⟨c, later, rfl, percent, _⟩ := List.map_eq_cons_iff.mp lower
    exact absurd percent (toLower_of_isPlain (plain c List.mem_cons_self)).2.2
  · rfl

/-- So plain names are taken in as they are. -/
theorem resolveFrom_plain (segments : List (List Char)) (plain : ∀ name ∈ names, IsPlainName name) :
    resolveFrom segments names = names.reverse ++ segments := by
  induction names generalizing segments with
  | nil => rfl
  | cons name others inductionHypothesis =>
    obtain ⟨plain', plains⟩ := List.forall_mem_cons.mp plain
    rw [resolveFrom, isParent_plain plain', isCurrent_plain plain'.plain plain'.notCurrent]
    simp only [Bool.false_eq_true, if_false]
    rw [inductionHypothesis _ plains]
    simp

/-- The segments of a plain path are its names. -/
theorem readPath_plain (backslashes : Bool) (plain : IsPlainName first)
    (plains : ∀ name ∈ others, IsPlainName name) :
    readPath backslashes (first ++ pathText others) = first :: others := by
  have every : ∀ c ∈ first ++ pathText others, (!endsPath c) = true := by
    intro c among
    have plain : c = '/' ∨ isPlain c = true := by
      rcases List.mem_append.mp among with among | among
      · exact .inr (plain.plain c among)
      · exact mem_pathText plains among
    rcases plain with rfl | plain
    · rfl
    · have ends := endsAuthority_of_isPlain false plain
      rw [(Bool.or_eq_false_iff.mp ends).2]
      rfl
  have named : ∀ name ∈ first :: others, IsPlainName name := List.forall_mem_cons.mpr ⟨plain, plains⟩
  unfold readPath resolve
  rw [takeWhile_eq_self every, fields_pathText backslashes plain plains, resolveFrom_plain [] named]
  simp

/-- A slash at the start leaves an empty segment before it. -/
theorem readPath_slash (backslashes : Bool) (plain : IsPlainName first)
    (plains : ∀ name ∈ others, IsPlainName name) :
    readPath backslashes (pathText (first :: others)) = [] :: first :: others := by
  have named : ∀ name ∈ first :: others, IsPlainName name := List.forall_mem_cons.mpr ⟨plain, plains⟩
  have every : ∀ c ∈ pathText (first :: others), (!endsPath c) = true := by
    intro c among
    rcases mem_pathText named among with rfl | plain
    · rfl
    · rw [(Bool.or_eq_false_iff.mp (endsAuthority_of_isPlain false plain)).2]
      rfl
  have separated : Text.fields (isSlash backslashes) (pathText (first :: others)) =
      [] :: first :: others := by
    have text : pathText (first :: others) = [] ++ '/' :: (first ++ pathText others) := rfl
    rw [text, Text.fields_append_cons (by simp) rfl, fields_pathText backslashes plain plains]
  unfold readPath resolve
  rw [takeWhile_eq_self every, separated, resolveFrom]
  exact (congrArg List.reverse (resolveFrom_plain [[]] named)).trans (by simp)

/-! ## The path of plain segments -/

/-- The octets of ASCII are those of its characters. -/
theorem encode_ascii {text : List Char} (ascii : ∀ c ∈ text, c.toNat < 128) :
    Text.Utf8.encode text = text.map fun c => UInt8.ofNat c.toNat := by
  induction text with
  | nil => rfl
  | cons c rest inductionHypothesis =>
    obtain ⟨ascii', asciis⟩ := List.forall_mem_cons.mp ascii
    have octet := Text.Utf8.encodeChar_ascii ascii'
    rw [Char.ofNat_toNat] at octet
    rw [Text.Utf8.encode, List.flatMap_cons, octet, List.map_cons, ← inductionHypothesis asciis]
    rfl

/-- Where there is no percent sign there is no escape. -/
theorem decode_unmarked {bytes : Bytes} (unmarked : ∀ b ∈ bytes, b ≠ Percent.mark) :
    Percent.decode bytes = bytes := by
  induction bytes with
  | nil => rw [Percent.decode]
  | cons b rest inductionHypothesis =>
    obtain ⟨unmarked', rest'⟩ := List.forall_mem_cons.mp unmarked
    rw [Percent.decode_cons_of_ne unmarked', inductionHypothesis rest']

/-- A plain name holds no escape. -/
theorem segmentBytes_plain (plain : IsPlainName first) :
    segmentBytes first = Text.Utf8.encode first := by
  apply decode_unmarked
  rw [encode_ascii fun c among => isPlain_ascii (plain.plain c among)]
  rintro _ among
  obtain ⟨c, within, rfl⟩ := List.mem_map.mp among
  exact (isDriveMark_of_isPlain (plain.plain c within)).2.1

/-- Nothing is added to a path that holds no mark of a drive. -/
theorem closeDrive_unmarked {path : Path} (unmarked : ∀ b ∈ path, b ≠ 0x3A ∧ b ≠ 0x7C) :
    closeDrive path = path := by
  unfold closeDrive
  split
  · rename_i mark letter _ _ ends
    have among : mark ∈ path := List.mem_reverse.mp (ends ▸ List.mem_cons_self)
    rw [if_neg fun drive => drive.1.elim (unmarked mark among).1 (unmarked mark among).2]
  · rfl

/-- The path of plain segments is the text of the path. -/
theorem pathOf_plain (plains : ∀ name ∈ names, IsPlainName name) :
    closeDrive (Path.ofComponents (names.map segmentBytes)) = Text.Utf8.encode (pathText names) := by
  have ascii : ∀ c ∈ pathText names, c.toNat < 128 := by
    intro c among
    rcases mem_pathText plains among with rfl | plain
    · decide
    · exact isPlain_ascii plain
  have octets : Path.ofComponents (names.map segmentBytes) = Text.Utf8.encode (pathText names) := by
    clear ascii
    induction names with
    | nil => rfl
    | cons name others inductionHypothesis =>
      obtain ⟨plain, plains⟩ := List.forall_mem_cons.mp plains
      have text : pathText (name :: others) = ['/'] ++ (name ++ pathText others) := rfl
      have slash : Text.Utf8.encode ['/'] = [Path.slash] := by decide +kernel
      rw [text, Text.Utf8.encode_append, Text.Utf8.encode_append, slash, ← inductionHypothesis plains,
        ← segmentBytes_plain plain]
      rfl
  rw [octets]
  apply closeDrive_unmarked
  rw [encode_ascii ascii]
  intro b among
  obtain ⟨c, within, rfl⟩ := List.mem_map.mp among
  rcases mem_pathText plains within with rfl | plain
  · decide
  · exact (isDriveMark_of_isPlain plain).2.2

end

end LspProxy.Uri
