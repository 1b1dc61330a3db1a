import LspProxy.Proofs.Json.Objects

/-!
# Records under another text

A record is read alike from all texts that say the same of it (`respects_varied`): texts that differ in blanks
alone, arrays among them, and objects whose members are changed in ways that do not matter.

An array is followed element by element. An object with other blanks has the same members, so nothing is left
to show of it once both are listed (`Respaced.listings`).
-/
namespace LspProxy.Json

section Records

variable {σ : Type} {fields : List (Field σ)} {depth steps : Nat} {state next last : σ}
  {known : List String} {alike : String → Bytes → Bytes → Prop}

/-! ## Arrays -/

/-- An element is read from the text with other blanks, in front of anything that may follow. -/
theorem Respaced.element_read {entry entry' more behind later : Bytes} {b : UInt8} {field : Field σ}
    (entries : Respaced (.entry .array) entry entry') (isMore : Derives (.more .array) more) {rest : Bytes}
    (passes : ∀ {input rest : Bytes}, field.read state depth input = .ok (next, rest) → Passes input rest)
    (respects : Respects (Respaced .value) (field.read state depth))
    (begins : skipSpace (entry ++ (more ++ rest)) = b :: later)
    (value : field.read state depth (b :: later) = .ok (next, behind)) :
    behind = more ++ rest ∧ ∀ after, EndsNumber after → ∃ b' later',
      skipSpace (entry' ++ after) = b' :: later' ∧ b' ≠ 0x5D ∧
        field.read state depth (b' :: later') = .ok (next, after) := by
  have ends := isMore.endsNumber rest
  have same : skipSpace (b :: later) = skipSpace (entry ++ (more ++ rest)) := by
    rw [← begins, skipSpace_skipSpace]
  -- the field reads the whole element, because the walk does
  have whole := entries.derives.behind ends same (passes value [])
  subst whole
  refine ⟨rfl, ?_⟩
  intro after isEnd
  cases entries with
  | element isBlanks isBlanks' values =>
    obtain ⟨c, inner, inner', rfl, rfl, solid, inside, -⟩ := values.begins
    rw [List.append_assoc, List.cons_append, isBlanks.before solid] at begins
    rw [← begins, ← List.cons_append] at value
    have yields := respects values blanks_nil value
    refine ⟨c, inner' ++ after, ?_, inside, yields blanks_nil isEnd⟩
    rw [List.append_assoc, List.cons_append, isBlanks'.before solid]

/-- The elements behind the first one. -/
theorem Respaced.elements {phrase : Phrase} {more more' : Bytes} (respaced : Respaced phrase more more')
    (isMore : phrase = .more .array) (independent : Independent fields) {rest behind : Bytes}
    (elements : Elements depth fields state false (more ++ rest) last behind) :
    behind = rest ∧ ∀ after, Elements depth fields state false (more' ++ after) last after := by
  induction respaced generalizing fields state with
  | closing isBlanks isBlanks' =>
    obtain rfl := Phrase.more.inj isMore
    rw [List.append_assoc, List.singleton_append] at elements
    cases elements with
    | closed closing complete =>
      rw [isBlanks.before (by decide)] at closing
      obtain ⟨-, rfl⟩ := List.cons.inj closing
      refine ⟨rfl, fun after => .closed ?_ complete⟩
      rw [List.append_assoc]
      exact isBlanks'.before (by decide) after
    | element ahead begins inside value others =>
      cases ahead with
      | comma comma =>
        rw [isBlanks.before (by decide)] at comma
        exact absurd (List.cons.inj comma).1 (by decide)
  | @comma bracket blanks blanks' entry entry' more more' isBlanks isBlanks' entries respaced _
      inductionHypothesis =>
    obtain rfl := Phrase.more.inj isMore
    rw [List.append_assoc, List.cons_append, List.append_assoc] at elements
    cases elements with
    | closed closing complete =>
      rw [isBlanks.before (by decide)] at closing
      exact absurd (List.cons.inj closing).1 (by decide)
    | element ahead begins inside value others =>
      cases ahead with
      | comma comma =>
        rw [isBlanks.before (by decide)] at comma
        obtain ⟨-, rfl⟩ := List.cons.inj comma
        obtain ⟨rfl, again⟩ := entries.element_read respaced.derives
          (independent.passes _ List.mem_cons_self) (independent.respects _ List.mem_cons_self _ _) begins value
        obtain ⟨rfl, others'⟩ := inductionHypothesis rfl independent.tail others
        refine ⟨rfl, fun after => ?_⟩
        obtain ⟨b', later', begins', inside', value'⟩ :=
          again (more' ++ after) (respaced.symm.derives.endsNumber after)
        rw [List.append_assoc, List.cons_append, List.append_assoc]
        exact .element (.comma (isBlanks'.before (by decide) _)) begins' inside' value' (others' after)
  | _ => exact absurd isMore (by simp)

/-- The elements of an array, the first of them included. -/
theorem Respaced.elements_first {entry entry' more more' : Bytes}
    (entries : Respaced (.entry .array) entry entry') (respaced : Respaced (.more .array) more more')
    (independent : Independent fields) {rest behind : Bytes}
    (elements : Elements depth fields state true (entry ++ (more ++ rest)) last behind) (after : Bytes) :
    Elements depth fields state true (entry' ++ (more' ++ after)) last after := by
  cases elements with
  | closed closing complete => exact absurd closing (entries.derives.inside _ _)
  | element ahead begins inside value others =>
    cases ahead
    obtain ⟨rfl, again⟩ := entries.element_read respaced.derives
      (independent.passes _ List.mem_cons_self) (independent.respects _ List.mem_cons_self _ _) begins value
    obtain ⟨-, others'⟩ := respaced.elements rfl independent.tail others
    obtain ⟨b', later', begins', inside', value'⟩ :=
      again (more' ++ after) (respaced.symm.derives.endsNumber after)
    exact .element (.initial _) begins' inside' value' (others' after)

/-- An array without elements. -/
theorem elements_empty {blanks blanks' rest behind : Bytes} (isBlanks : Blanks blanks)
    (isBlanks' : Blanks blanks')
    (elements : Elements depth fields state true (blanks ++ (0x5D :: rest)) last behind) (after : Bytes) :
    Elements depth fields state true (blanks' ++ (0x5D :: after)) last after := by
  cases elements with
  | closed closing complete => exact .closed (isBlanks'.before (by decide) after) complete
  | element ahead begins inside value others =>
    cases ahead
    rw [isBlanks.before (by decide)] at begins
    exact absurd (List.cons.inj begins).1 (Ne.symm inside)

/-- A record is read from an array in every place where its elements are. -/
theorem yields_array {inner : Bytes} (nested : 1 < depth)
    (elements : ∀ after, Elements (depth - 1) fields state true (inner ++ after) last after) :
    Yields (readRecord fields state depth) (0x5B :: inner) last := by
  intro blanks rest isBlanks _
  exact (readRecord_array_iff isBlanks).mpr ⟨nested, elements rest⟩

variable {later rest behind : Bytes}

/-! ## Objects with other blanks -/

/-- A member that is read has a name, and keeps it with other blanks. -/
theorem Respaced.named {entry entry' : Bytes} (entries : Respaced (.entry .object) entry entry')
    (opening : skipSpace (entry ++ rest) = 0x22 :: later)
    (member : Member fields depth state later next behind) :
    ∃ name value value', NamedMember name value entry ∧ NamedMember name value' entry' ∧
      Respaced .value value value' := by
  cases entries with
  | @member blanks blanks' key gap gap' _ _ isBlanks isBlanks' quoted isGap isGap' elements =>
    cases elements with
    | @element space space' value value' isSpace isSpace' values =>
      rw [List.append_assoc, List.cons_append, isBlanks.before (by decide)] at opening
      obtain rfl := (List.cons.inj opening).2
      -- the key ends at the quote behind it, so what is read of it are all of its octets
      have spelled {name : String} {behind : Bytes}
          (read : readString ((key ++ 0x22 :: (gap ++ 0x3A :: (space ++ value))) ++ rest) = .ok (name, behind)) :
          Spells key (Text.Utf8.encode name.toList) := by
        have passed := skipString_of_collectString (readString_eq_ok_iff.mp read)
        rw [List.append_assoc, List.cons_append, quoted.skip] at passed
        obtain ⟨text, spells, whole⟩ := readString_spells_iff.mp read
        rw [← Except.ok.inj passed, List.append_assoc, List.cons_append] at whole
        rw [List.append_cancel_right whole]
        exact spells
      obtain ⟨name, spells⟩ : ∃ name : String, Spells key (Text.Utf8.encode name.toList) := by
        cases member with
        | known read => exact ⟨_, spelled read⟩
        | unknown read => exact ⟨_, spelled read⟩
      refine ⟨name, value, value', ?_, ?_, values⟩
      · exact .written isBlanks spells isGap isSpace values.derives
      · exact .written isBlanks' spells isGap' isSpace' values.symm.derives

/-- Members behind the first one, if they are read, are listed with both kinds of blanks. -/
theorem Respaced.listings {phrase : Phrase} {more more' : Bytes} (respaced : Respaced phrase more more')
    (isMore : phrase = .more .object) (passes : EachPasses fields)
    (read : Members fields depth steps state false (more ++ rest) last behind) :
    ∃ members members', Listing false members more ∧ Listing false members' more' ∧
      Rewritten known (fun _ => Respaced .value) members members' := by
  induction respaced generalizing state steps with
  | closing isBlanks isBlanks' =>
    obtain rfl := Phrase.more.inj isMore
    exact ⟨[], [], .closing isBlanks, .closing isBlanks', .done⟩
  | comma isBlanks isBlanks' entries respaced _ inductionHypothesis =>
    obtain rfl := Phrase.more.inj isMore
    rw [List.append_assoc, List.cons_append, List.append_assoc] at read
    cases read with
    | closed closing complete =>
      rw [isBlanks.before (by decide)] at closing
      exact absurd (List.cons.inj closing).1 (by decide)
    | member ahead opening member others =>
      cases ahead with
      | comma comma =>
        rw [isBlanks.before (by decide)] at comma
        obtain ⟨-, rfl⟩ := List.cons.inj comma
        obtain ⟨name, value, value', named, named', values⟩ := entries.named opening member
        obtain rfl := member.ends passes named.derives (respaced.derives.endsNumber rest) opening
        obtain ⟨members, members', listing, listing', rewritten⟩ := inductionHypothesis rfl others
        exact ⟨_, _, .comma isBlanks named listing, .comma isBlanks' named' listing', .member values rewritten⟩
  | _ => exact absurd isMore (by simp)

/-- The members of an object that is read, listed with both kinds of blanks. -/
theorem Respaced.listings_first {entry entry' more more' : Bytes}
    (entries : Respaced (.entry .object) entry entry') (respaced : Respaced (.more .object) more more')
    (passes : EachPasses fields)
    (read : Members fields depth steps state true ((entry ++ more) ++ rest) last behind) :
    ∃ members members', Listing true members (entry ++ more) ∧ Listing true members' (entry' ++ more') ∧
      Rewritten known (fun _ => Respaced .value) members members' := by
  rw [List.append_assoc] at read
  cases read with
  | closed closing complete => exact absurd closing (entries.derives.inside _ _)
  | member ahead opening member others =>
    cases ahead
    obtain ⟨name, value, value', named, named', values⟩ := entries.named opening member
    obtain rfl := member.ends passes named.derives (respaced.derives.endsNumber rest) opening
    obtain ⟨members, members', listing, listing', rewritten⟩ := respaced.listings rfl passes others
    exact ⟨_, _, .first named listing, .first named' listing', .member values rewritten⟩

/-- What begins with a brace has no members, or a first member and what stands behind it. -/
theorem Derives.object_cases {later : Bytes} (derives : Derives .value (0x7B :: later)) :
    (∃ blanks, Blanks blanks ∧ later = blanks ++ [0x7D]) ∨
      ∃ entry more, Derives (.entry .object) entry ∧ Derives (.more .object) more ∧ later = entry ++ more := by
  generalize whole : (0x7B :: later : Bytes) = value at derives
  cases derives with
  | string quoted => exact absurd (List.cons.inj whole).1 (by decide)
  | lexeme isLexeme =>
    obtain ⟨b, rest, begins, passed⟩ := isLexeme.skip endsNumber_nil
    rw [← whole, List.append_nil] at begins
    rw [← (List.cons.inj begins).1] at passed
    exact absurd passed (by simp [skipLexeme, isDigit])
  | empty bracket isBlanks =>
    cases bracket with
    | array => exact absurd (List.cons.inj whole).1 (by decide)
    | object => exact .inl ⟨_, isBlanks, (List.cons.inj whole).2⟩
  | @bracketed bracket entry more first others =>
    cases bracket with
    | array => exact absurd (List.cons.inj whole).1 (by decide)
    | object => exact .inr ⟨entry, more, first, others, (List.cons.inj whole).2⟩

/-- The members of every object that is read are listed. -/
theorem Members.exists_listing {inner : Bytes} (read : Members fields depth steps state true inner last rest)
    (passes : EachPasses fields) : ∃ members text, Listing true members text ∧ inner = text ++ rest := by
  have begins : skipSpace (0x7B :: inner) = 0x7B :: inner := skipSpace_of_solid (by decide) inner
  obtain ⟨entry, derives, whole⟩ := exists_entry_of_skipValue (read.passes passes begins).skipValue
  cases derives with
  | @element front value isFront isValue =>
    obtain ⟨b, later, rfl, solid, -⟩ := isValue.begins
    have brace : 0x7B :: inner = b :: (later ++ rest) := by
      rw [← begins, whole, List.append_assoc, List.cons_append, isFront.before solid]
    obtain ⟨rfl, rfl⟩ := List.cons.inj brace
    rcases isValue.object_cases with ⟨gap, isGap, rfl⟩ | ⟨entry, more, first, others, rfl⟩
    · exact ⟨[], _, .closing isGap, rfl⟩
    · obtain ⟨members, _, listing, -, -⟩ : ∃ members members', Listing true members (entry ++ more) ∧
          Listing true members' (entry ++ more) ∧ Rewritten [] (fun _ => Respaced .value) members members' :=
        first.respaced.listings_first others.respaced passes read
      exact ⟨members, _, listing, rfl⟩

/-! ## Records -/

/-- Two values in the place of a record that say the same of it: they differ in blanks alone, or they are
objects whose members have been changed in ways that do not matter. -/
inductive Varied (known : List String) (alike : String → Bytes → Bytes → Prop) : Bytes → Bytes → Prop
  | respaced {value value' : Bytes} (respaced : Respaced .value value value') : Varied known alike value value'
  | object {members members' : List (String × Bytes)} {text text' : Bytes}
      (listing : Listing true members text) (listing' : Listing true members' text')
      (rewritten : Rewritten known alike members members') : Varied known alike (0x7B :: text) (0x7B :: text')

theorem Varied.derives {value value' : Bytes} (varied : Varied known alike value value') :
    Derives .value value := by
  cases varied with
  | respaced respaced => exact respaced.derives
  | object listing _ _ => exact listing.object

/-- A record goes by the tokens of its text if its fields do. -/
theorem respects_readRecord (independent : Independent fields) :
    Respects (Respaced .value) (readRecord fields state depth) := by
  intro value value' blanks rest last respaced isBlanks read
  have opens {b : UInt8} {later : Bytes} (begins : value = b :: later) (solid : isSpace b = false) :
      b = 0x5B ∨ b = 0x7B := by
    rw [begins, List.cons_append, readRecord_eq_ok_iff, isBlanks.before solid] at read
    obtain ⟨-, ⟨inner, opening, -⟩ | ⟨inner, opening, -⟩⟩ := read
    · exact .inl (List.cons.inj opening).1
    · exact .inr (List.cons.inj opening).1
  cases respaced with
  | string quoted => exact absurd (opens rfl (by decide)) (by decide)
  | lexeme isLexeme =>
    obtain ⟨b, later, begins, passed⟩ := isLexeme.skip endsNumber_nil
    rw [List.append_nil] at begins
    rcases opens begins (solid_of_skipLexeme passed) with rfl | rfl
    · exact absurd passed (by simp [skipLexeme, isDigit])
    · exact absurd passed (by simp [skipLexeme, isDigit])
  | empty bracket isInner isInner' =>
    cases bracket with
    | array =>
      rw [List.cons_append, List.append_assoc] at read
      obtain ⟨nested, elements⟩ := (readRecord_array_iff isBlanks).mp read
      apply yields_array nested
      intro after
      rw [List.append_assoc]
      exact elements_empty isInner isInner' elements after
    | object =>
      have none : Rewritten (fields.map Field.key) (fun _ => Respaced .value) [] [] := .done
      exact readRecord_rewritten independent (.closing isInner) (.closing isInner') none independent.respects
        isBlanks read
  | @bracketed bracket entry entry' more more' entries respaced =>
    cases bracket with
    | array =>
      rw [List.cons_append, List.append_assoc] at read
      obtain ⟨nested, elements⟩ := (readRecord_array_iff isBlanks).mp read
      apply yields_array nested
      intro after
      rw [List.append_assoc]
      exact entries.elements_first respaced independent elements after
    | object =>
      obtain ⟨members, members', listing, listing', rewritten⟩ :=
        entries.listings_first respaced independent.passes ((readRecord_object_iff isBlanks).mp read).2
      exact readRecord_rewritten independent listing listing' rewritten independent.respects isBlanks read

/-- A record is read alike from all values that say the same of it. -/
theorem respects_varied (independent : Independent fields)
    (respects : ∀ field ∈ fields, ∀ state depth, Respects (alike field.key) (field.read state depth)) :
    Respects (Varied (fields.map Field.key) alike) (readRecord fields state depth) := by
  intro value value' blanks rest last varied isBlanks read
  cases varied with
  | respaced respaced => exact respects_readRecord independent respaced isBlanks read
  | object listing listing' rewritten =>
    exact readRecord_rewritten independent listing listing' rewritten respects isBlanks read

end Records

end LspProxy.Json
