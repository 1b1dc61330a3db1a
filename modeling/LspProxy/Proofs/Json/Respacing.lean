import LspProxy.Proofs.Json.Grammar

/-!
# Blanks between tokens

Two texts of one phrase may differ in nothing but the blanks between their tokens (`Respaced`). A reader that
goes by the tokens makes the same of both, wherever they stand (`Respects`).

Which text a reader takes is not its own choice: a value ends where the grammar ends it (`Reaches.unique`). So
it is enough to follow the readers from one place to another; what they leave behind is known.
-/
namespace LspProxy.Json

/-! ## Texts with other blanks -/

/-- Two texts of a phrase with the same tokens. Where blanks may stand, those of either are its own. -/
inductive Respaced : Phrase → Bytes → Bytes → Prop
  | string {text : Bytes} (quoted : Quoted text) :
      Respaced .value (0x22 :: (text ++ [0x22])) (0x22 :: (text ++ [0x22]))
  | lexeme {text : Bytes} (isLexeme : Lexeme text) : Respaced .value text text
  | empty (bracket : Bracket) {blanks blanks' : Bytes} (isBlanks : Blanks blanks) (isBlanks' : Blanks blanks') :
      Respaced .value (bracket.opening :: (blanks ++ [bracket.closing]))
        (bracket.opening :: (blanks' ++ [bracket.closing]))
  | bracketed {bracket : Bracket} {entry entry' more more' : Bytes}
      (first : Respaced (.entry bracket) entry entry') (others : Respaced (.more bracket) more more') :
      Respaced .value (bracket.opening :: (entry ++ more)) (bracket.opening :: (entry' ++ more'))
  | element {blanks blanks' value value' : Bytes} (isBlanks : Blanks blanks) (isBlanks' : Blanks blanks')
      (values : Respaced .value value value') : Respaced (.entry .array) (blanks ++ value) (blanks' ++ value')
  | member {blanks blanks' key gap gap' value value' : Bytes} (isBlanks : Blanks blanks)
      (isBlanks' : Blanks blanks') (quoted : Quoted key) (isGap : Blanks gap) (isGap' : Blanks gap')
      (elements : Respaced (.entry .array) value value') :
      Respaced (.entry .object) (blanks ++ 0x22 :: (key ++ 0x22 :: (gap ++ 0x3A :: value)))
        (blanks' ++ 0x22 :: (key ++ 0x22 :: (gap' ++ 0x3A :: value')))
  | closing {bracket : Bracket} {blanks blanks' : Bytes} (isBlanks : Blanks blanks)
      (isBlanks' : Blanks blanks') :
      Respaced (.more bracket) (blanks ++ [bracket.closing]) (blanks' ++ [bracket.closing])
  | comma {bracket : Bracket} {blanks blanks' entry entry' more more' : Bytes} (isBlanks : Blanks blanks)
      (isBlanks' : Blanks blanks') (next : Respaced (.entry bracket) entry entry')
      (others : Respaced (.more bracket) more more') :
      Respaced (.more bracket) (blanks ++ 0x2C :: (entry ++ more)) (blanks' ++ 0x2C :: (entry' ++ more'))

/-- A text may keep its blanks. -/
theorem Derives.respaced {phrase : Phrase} {text : Bytes} (derives : Derives phrase text) :
    Respaced phrase text text := by
  induction derives with
  | string quoted => exact .string quoted
  | lexeme isLexeme => exact .lexeme isLexeme
  | empty bracket isBlanks => exact .empty bracket isBlanks isBlanks
  | bracketed _ _ first others => exact .bracketed first others
  | element isBlanks _ values => exact .element isBlanks isBlanks values
  | member isBlanks quoted isGap _ elements => exact .member isBlanks isBlanks quoted isGap isGap elements
  | closing isBlanks => exact .closing isBlanks isBlanks
  | comma isBlanks _ _ next others => exact .comma isBlanks isBlanks next others

theorem Respaced.symm {phrase : Phrase} {text text' : Bytes} (respaced : Respaced phrase text text') :
    Respaced phrase text' text := by
  induction respaced with
  | string quoted => exact .string quoted
  | lexeme isLexeme => exact .lexeme isLexeme
  | empty bracket isBlanks isBlanks' => exact .empty bracket isBlanks' isBlanks
  | bracketed _ _ first others => exact .bracketed first others
  | element isBlanks isBlanks' _ values => exact .element isBlanks' isBlanks values
  | member isBlanks isBlanks' quoted isGap isGap' _ elements =>
    exact .member isBlanks' isBlanks quoted isGap' isGap elements
  | closing isBlanks isBlanks' => exact .closing isBlanks' isBlanks
  | comma isBlanks isBlanks' _ _ next others => exact .comma isBlanks' isBlanks next others

/-- Both are texts of the phrase. -/
theorem Respaced.derives {phrase : Phrase} {text text' : Bytes} (respaced : Respaced phrase text text') :
    Derives phrase text := by
  induction respaced with
  | string quoted => exact .string quoted
  | lexeme isLexeme => exact .lexeme isLexeme
  | empty bracket isBlanks _ => exact .empty bracket isBlanks
  | bracketed _ _ first others => exact .bracketed first others
  | element isBlanks _ _ isValue => exact .element isBlanks isValue
  | member isBlanks _ quoted isGap _ _ element => exact .member isBlanks quoted isGap element
  | closing isBlanks _ => exact .closing isBlanks
  | comma isBlanks _ _ _ next others => exact .comma isBlanks next others

/-- Values with the same tokens begin with the same byte, and without brackets they are the same. -/
theorem Respaced.begins {value value' : Bytes} (respaced : Respaced .value value value') :
    ∃ b later later', value = b :: later ∧ value' = b :: later' ∧ isSpace b = false ∧ b ≠ 0x5D ∧
      (b ≠ 0x5B → b ≠ 0x7B → later' = later) := by
  obtain ⟨b, later, whole, solid, inside⟩ := respaced.derives.begins
  have brackets {bracket : Bracket} {inner : Bytes} (opened : bracket.opening :: inner = b :: later) :
      b = 0x5B ∨ b = 0x7B := by
    rw [← (List.cons.inj opened).1]
    cases bracket with
    | array => exact .inl rfl
    | object => exact .inr rfl
  cases respaced with
  | string quoted => exact ⟨b, later, later, whole, whole, solid, inside, fun _ _ => rfl⟩
  | lexeme isLexeme => exact ⟨b, later, later, whole, whole, solid, inside, fun _ _ => rfl⟩
  | empty bracket isBlanks isBlanks' =>
    have opened := (List.cons.inj whole).1
    refine ⟨b, later, _, whole, by rw [opened], solid, inside, fun array object => ?_⟩
    exact ((brackets whole).elim array object).elim
  | bracketed first others =>
    have opened := (List.cons.inj whole).1
    refine ⟨b, later, _, whole, by rw [opened], solid, inside, fun array object => ?_⟩
    exact ((brackets whole).elim array object).elim

/-! ## Where a value ends -/

/-- The walk over one value comes to one end. -/
theorem Reaches.unique {start : Point} {rest behind : Bytes}
    (reaches : Reaches start ⟨.separator, [], rest⟩) (again : Reaches start ⟨.separator, [], behind⟩) :
    behind = rest := by
  obtain ⟨taken, -, steps⟩ := reaches
  obtain ⟨taken', -, steps'⟩ := again
  -- in one more step than both take together both have stopped
  have one : start.walk (taken + (taken' + 1)) = .ok rest := steps (taken' + 1)
  have other : start.walk (taken' + (taken + 1)) = .ok behind := steps' (taken + 1)
  have total : taken' + (taken + 1) = taken + (taken' + 1) := by omega
  rw [total, one] at other
  exact (Except.ok.inj other).symm

/-- What is behind an entry is what the walk over it leaves. -/
theorem Derives.behind {bracket : Bracket} {entry input rest behind : Bytes}
    (derives : Derives (.entry bracket) entry) (ends : EndsNumber rest)
    (same : skipSpace input = skipSpace (entry ++ rest))
    (reaches : Reaches ⟨bracket.next, [], input⟩ ⟨.separator, [], behind⟩) : behind = rest :=
  (derives.moves ends same []).unique reaches

/-! ## Readers that go by the tokens -/

section Readers

variable {α β : Type} {read : Bytes → Except Fault (α × Bytes)} {alike : Bytes → Bytes → Prop}

/-- The reader takes this value behind any blanks and in front of all that does not go on with a number, and
makes the same of it everywhere. -/
def Yields (read : Bytes → Except Fault (α × Bytes)) (value : Bytes) (result : α) : Prop :=
  ∀ ⦃blanks rest : Bytes⦄, Blanks blanks → EndsNumber rest →
    read (blanks ++ (value ++ rest)) = .ok (result, rest)

/-- What the reader makes of a value in one place it makes of all values like it, in every place. -/
def Respects (alike : Bytes → Bytes → Prop) (read : Bytes → Except Fault (α × Bytes)) : Prop :=
  ∀ ⦃value value' blanks rest : Bytes⦄ ⦃result : α⦄, alike value value' → Blanks blanks →
    read (blanks ++ (value ++ rest)) = .ok (result, rest) → Yields read value' result

/-- What is made of a value in every place. -/
theorem Respects.yields (respects : Respects alike read) {value value' : Bytes} {result : α}
    (isAlike : alike value value') (yields : Yields read value result) : Yields read value' result :=
  respects isAlike blanks_nil (yields blanks_nil endsNumber_nil)

/-- What is made of the result of a reader, without a look at what is behind. -/
theorem Respects.bind {next : α × Bytes → Except Fault (β × Bytes)} (respects : Respects alike read)
    (keeps : ∀ {found : α} {rest behind : Bytes} {result : β}, next (found, rest) = .ok (result, behind) →
      behind = rest ∧ ∀ after, next (found, after) = .ok (result, after)) :
    Respects alike fun input => read input >>= next := by
  intro value value' blanks rest result isAlike isBlanks taken
  obtain ⟨⟨found, behind⟩, first, made⟩ := bind_eq_ok_iff.mp taken
  obtain ⟨rfl, everywhere⟩ := keeps made
  have yields := respects isAlike isBlanks first
  intro blanks' rest' isBlanks' ends
  exact bind_eq_ok_iff.mpr ⟨_, yields isBlanks' ends, everywhere rest'⟩

/-- What is made of the value that is read. -/
theorem Respects.map (respects : Respects alike read) (make : α → β) :
    Respects alike fun input => do
      let (value, rest) ← read input
      return (make value, rest) := by
  apply respects.bind
  intro found rest behind result made
  obtain ⟨rfl, rfl⟩ := Prod.mk.inj (Except.ok.inj made)
  exact ⟨rfl, fun after => rfl⟩

theorem respects_readText : Respects (Respaced .value) readText := by
  intro value value' blanks rest text respaced isBlanks taken
  obtain ⟨b, later, later', rfl, rfl, solid, -, same⟩ := respaced.begins
  unfold readText at taken
  rw [List.cons_append, isBlanks.before solid] at taken
  split at taken
  · rename_i string first
    obtain ⟨rfl, rfl⟩ := List.cons.inj first
    obtain ⟨quoted, spells, whole⟩ := readString_spells_iff.mp taken
    have front : later ++ rest = (quoted ++ [0x22]) ++ rest := by
      rw [whole, List.append_assoc, List.singleton_append]
    have closed : later = quoted ++ [0x22] := List.append_cancel_right front
    rw [same (by decide) (by decide), closed]
    intro blanks' rest' isBlanks' ends
    unfold readText
    rw [List.cons_append, isBlanks'.before solid, List.append_assoc]
    exact spells.read rest'
  · exact absurd taken (by simp)

/-- A natural number is read exactly where its numeral stands. -/
theorem readNatural_eq_ok_iff {bound n : Nat} {input rest : Bytes} :
    readNatural bound input = .ok (n, rest) ↔
      skipSpace input = numeral n ++ rest ∧ EndsNumber rest ∧ n < bound ∧ n ≤ maxSignificand := by
  constructor
  · intro taken
    unfold readNatural at taken
    extract_lets bounded at taken
    have integer {negative : Bool} {later : Bytes}
        (number : (readNumber negative later >>= bounded) = .ok (n, rest)) :
        later = numeral n ++ rest ∧ EndsNumber rest ∧ n < bound ∧ n ≤ maxSignificand ∧ negative = false := by
      obtain ⟨⟨number, behind⟩, found, made⟩ := bind_eq_ok_iff.mp number
      cases number with
      | fractional => exact absurd made (by simp [bounded])
      | integer value =>
        dsimp only [bounded] at made
        split at made
        · rename_i inside
          obtain ⟨rfl, rfl⟩ := Prod.mk.inj (Except.ok.inj made)
          obtain ⟨spelled, ends, kept⟩ := readNumber_eq_integer_iff.mp found
          have natural : value.toNat = value.natAbs := by omega
          unfold Kept at kept
          cases negative with
          | true => exact absurd inside.1 (Int.not_le.mpr kept.1)
          | false =>
            rw [natural] at inside ⊢
            exact ⟨spelled, ends, inside.2, kept.2, rfl⟩
        · exact absurd made (by simp)
    split at taken
    · exact absurd taken (by simp)
    · rename_i b later first
      rw [first]
      split at taken
      · exact absurd (integer taken).2.2.2.2 (by simp)
      split at taken
      · obtain ⟨spelled, ends, below, word, -⟩ := integer taken
        exact ⟨spelled, ends, below, word⟩
      · exact absurd taken (by simp)
  · rintro ⟨spelled, ends, below, word⟩
    have taken := readNatural_numeral below word ends
    rw [← spelled] at taken
    unfold readNatural at taken ⊢
    rw [skipSpace_skipSpace] at taken
    exact taken

theorem respects_readNatural (bound : Nat) : Respects (Respaced .value) (readNatural bound) := by
  intro value value' blanks rest n respaced isBlanks taken
  obtain ⟨spelled, -, below, word⟩ := readNatural_eq_ok_iff.mp taken
  obtain ⟨b, later, later', rfl, rfl, solid, -, same⟩ := respaced.begins
  rw [List.cons_append, isBlanks.before solid, ← List.cons_append] at spelled
  have whole : b :: later = numeral n := List.append_cancel_right spelled
  have digit : isDigit b = true := by
    apply (numeral_canonical n).1.isDigits
    rw [← whole]
    exact List.mem_cons_self
  have kept : later' = later := by
    apply same
    · rintro rfl
      exact absurd digit (by decide)
    · rintro rfl
      exact absurd digit (by decide)
  rw [kept]
  intro blanks' rest' isBlanks' ends
  rw [readNatural_eq_ok_iff, List.cons_append, isBlanks'.before solid, ← List.cons_append, whole]
  exact ⟨rfl, ends, below, word⟩

/-- An optional value is `null`, or what the reader makes of it. -/
theorem Respects.optional (respects : Respects (Respaced .value) read) :
    Respects (Respaced .value) (readOptional read) := by
  intro value value' blanks rest result respaced isBlanks taken
  obtain ⟨b, later, later', rfl, rfl, solid, -, same⟩ := respaced.begins
  unfold readOptional at taken
  rw [List.cons_append, isBlanks.before solid] at taken
  split at taken
  · rename_i null first
    obtain ⟨rfl, rfl⟩ := List.cons.inj first
    obtain ⟨behind, passed, made⟩ := bind_eq_ok_iff.mp taken
    obtain ⟨rfl, rfl⟩ := Prod.mk.inj (Except.ok.inj made)
    have null : later = nullRest := List.append_cancel_right (keyword_eq_ok_iff.mp passed)
    rw [same (by decide) (by decide), null]
    intro blanks' rest' isBlanks' ends
    unfold readOptional
    rw [List.cons_append, isBlanks'.before solid]
    exact bind_eq_ok_iff.mpr ⟨rest', keyword_eq_ok_iff.mpr rfl, rfl⟩
  · rename_i other
    obtain ⟨⟨found, behind⟩, first, made⟩ := bind_eq_ok_iff.mp taken
    obtain ⟨rfl, rfl⟩ := Prod.mk.inj (Except.ok.inj made)
    have yields := respects respaced blanks_nil first
    intro blanks' rest' isBlanks' ends
    have again := yields blanks_nil ends
    unfold readOptional
    rw [List.cons_append, isBlanks'.before solid]
    split
    · rename_i null same
      exact absurd (congrArg (· :: (later ++ behind)) (List.cons.inj same).1) (other _)
    · exact bind_eq_ok_iff.mpr ⟨_, again, rfl⟩

end Readers

end LspProxy.Json
