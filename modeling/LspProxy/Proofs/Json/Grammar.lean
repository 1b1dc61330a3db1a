import LspProxy.Proofs.Json.Lexemes

/-!
# The grammar of JSON

What a value is made of, to any depth of brackets (`Derives`), and that values nobody looks at are passed over
exactly as the grammar says (`skipValue_entry`, `exists_entry_of_skipValue`).

The walk over a value keeps the list of the brackets still open. So what is shown of it goes by that list: what
the walk takes closes each open bracket in turn (`Closes`). In the other direction each phrase of the grammar
moves the walk past itself, whatever is open.

Records are read from objects whose members are listed with their names decoded (`IsObject`, `Listing`).
-/
namespace LspProxy.Json

/-! ## Phrases -/

/-- The parts that values are made of. -/
inductive Phrase where
  | value
  /-- What stands between commas inside of a bracket. -/
  | entry (bracket : Bracket)
  /-- What stands behind an entry, up to the closing bracket. -/
  | more (bracket : Bracket)

/-- The texts of a phrase. Blanks may stand in front of an entry, a comma and a closing bracket, and on both
sides of a colon. -/
inductive Derives : Phrase → Bytes → Prop
  | string {text : Bytes} (quoted : Quoted text) : Derives .value (0x22 :: (text ++ [0x22]))
  | lexeme {text : Bytes} (isLexeme : Lexeme text) : Derives .value text
  | empty (bracket : Bracket) {blanks : Bytes} (isBlanks : Blanks blanks) :
      Derives .value (bracket.opening :: (blanks ++ [bracket.closing]))
  | bracketed {bracket : Bracket} {entry more : Bytes} (first : Derives (.entry bracket) entry)
      (others : Derives (.more bracket) more) : Derives .value (bracket.opening :: (entry ++ more))
  | element {blanks value : Bytes} (isBlanks : Blanks blanks) (isValue : Derives .value value) :
      Derives (.entry .array) (blanks ++ value)
  | member {blanks key gap value : Bytes} (isBlanks : Blanks blanks) (quoted : Quoted key) (isGap : Blanks gap)
      (element : Derives (.entry .array) value) :
      Derives (.entry .object) (blanks ++ 0x22 :: (key ++ 0x22 :: (gap ++ 0x3A :: value)))
  | closing {bracket : Bracket} {blanks : Bytes} (isBlanks : Blanks blanks) :
      Derives (.more bracket) (blanks ++ [bracket.closing])
  | comma {bracket : Bracket} {blanks entry more : Bytes} (isBlanks : Blanks blanks)
      (next : Derives (.entry bracket) entry) (others : Derives (.more bracket) more) :
      Derives (.more bracket) (blanks ++ 0x2C :: (entry ++ more))

/-- Further blanks may stand in front of an entry. -/
theorem Derives.blanks {bracket : Bracket} {blanks entry : Bytes} (isBlanks : Blanks blanks)
    (derives : Derives (.entry bracket) entry) : Derives (.entry bracket) (blanks ++ entry) := by
  cases derives with
  | element others isValue =>
    rw [← List.append_assoc]
    exact .element (isBlanks.append others) isValue
  | member others quoted isGap element =>
    rw [← List.append_assoc]
    exact .member (isBlanks.append others) quoted isGap element

/-! ## What is passed over is a value -/

/-- A phrase with something behind it. -/
def Followed (phrase : Phrase) (behind : Bytes → Prop) (text : Bytes) : Prop :=
  ∃ front back, Derives phrase front ∧ behind back ∧ text = front ++ back

/-- A text that goes on behind an entry of the innermost open bracket and closes every open bracket. -/
def Closes : List Bracket → Bytes → Prop
  | [], text => text = []
  | bracket :: outer, text => Followed (.more bracket) (Closes outer) text

/-- A text that goes on with what is expected and closes every open bracket. -/
def Demands : Expected → List Bracket → Bytes → Prop
  | .separator, opened, text => Closes opened text
  | .value, opened, text => Followed (.entry .array) (Closes opened) text
  | .key, opened, text => Followed (.entry .object) (Closes opened) text

/-- Such a text stands between two places. -/
def Takes (expected : Expected) (opened : List Bracket) (input rest : Bytes) : Prop :=
  ∃ text, Demands expected opened text ∧ input = text ++ rest

section Steps

variable {opened : List Bracket} {input later behind rest : Bytes}

theorem demands_next (bracket : Bracket) (text : Bytes) :
    Demands bracket.next opened text ↔ Followed (.entry bracket) (Closes opened) text := by
  cases bracket with
  | array => exact Iff.rfl
  | object => exact Iff.rfl

theorem Bracket.solid (bracket : Bracket) :
    isSpace bracket.opening = false ∧ isSpace bracket.closing = false := by
  cases bracket with
  | array => decide
  | object => decide

theorem takes_comma (bracket : Bracket) (first : skipSpace input = 0x2C :: later)
    (takes : Takes bracket.next (bracket :: opened) later rest) :
    Takes .separator (bracket :: opened) input rest := by
  obtain ⟨text, demands, rfl⟩ := takes
  obtain ⟨entry, back, next, ⟨more, outer, others, closes, rfl⟩, rfl⟩ := (demands_next bracket text).mp demands
  obtain ⟨blanks, isBlanks, rfl⟩ := blanks_of_skipSpace first
  exact ⟨_, ⟨_, outer, .comma isBlanks next others, closes, rfl⟩, by simp⟩

theorem takes_closing (bracket : Bracket) (first : skipSpace input = bracket.closing :: later)
    (takes : Takes .separator opened later rest) : Takes .separator (bracket :: opened) input rest := by
  obtain ⟨text, closes, rfl⟩ := takes
  obtain ⟨blanks, isBlanks, rfl⟩ := blanks_of_skipSpace first
  exact ⟨_, ⟨_, text, .closing isBlanks, closes, rfl⟩, by simp⟩

theorem takes_key (first : skipSpace input = 0x22 :: later) (string : skipString later = .ok behind)
    {inner : Bytes} (colon : skipSpace behind = 0x3A :: inner) (takes : Takes .value opened inner rest) :
    Takes .key opened input rest := by
  obtain ⟨text, ⟨value, back, element, closes, rfl⟩, rfl⟩ := takes
  obtain ⟨blanks, isBlanks, rfl⟩ := blanks_of_skipSpace first
  obtain ⟨gap, isGap, rfl⟩ := blanks_of_skipSpace colon
  obtain ⟨key, isKey, rfl⟩ := skipString_eq_ok_iff.mp string
  exact ⟨_, ⟨_, back, .member isBlanks isKey isGap element, closes, rfl⟩, by simp⟩

/-- A value behind blanks, and what is taken behind the value. -/
theorem takes_value {value : Bytes} (isValue : Derives .value value) (first : skipSpace input = value ++ later)
    (takes : Takes .separator opened later rest) : Takes .value opened input rest := by
  obtain ⟨text, closes, rfl⟩ := takes
  obtain ⟨blanks, isBlanks, whole⟩ := exists_blanks input
  refine ⟨_, ⟨_, text, .element isBlanks isValue, closes, rfl⟩, ?_⟩
  rw [whole, first]
  simp

theorem takes_string (first : skipSpace input = 0x22 :: later) (string : skipString later = .ok behind)
    (takes : Takes .separator opened behind rest) : Takes .value opened input rest := by
  obtain ⟨text, quoted, rfl⟩ := skipString_eq_ok_iff.mp string
  exact takes_value (.string quoted) (first.trans (by simp)) takes

theorem takes_lexeme {b : UInt8} (first : skipSpace input = b :: later)
    (lexeme : skipLexeme b later = .ok behind) (takes : Takes .separator opened behind rest) :
    Takes .value opened input rest := by
  obtain ⟨text, isLexeme, whole⟩ := lexeme_of_skipLexeme lexeme
  exact takes_value (.lexeme isLexeme) (first.trans whole) takes

/-- A bracket that is closed at once is a value. -/
theorem takes_empty (bracket : Bracket) (first : skipSpace input = bracket.opening :: later)
    (closed : skipSpace later = bracket.closing :: behind) (takes : Takes .separator opened behind rest) :
    Takes .value opened input rest := by
  obtain ⟨blanks, isBlanks, rfl⟩ := blanks_of_skipSpace closed
  exact takes_value (.empty bracket isBlanks) (first.trans (by simp)) takes

/-- What is inside of a bracket, up to its end, is a value with what is behind it. -/
theorem takes_inside (bracket : Bracket) (first : skipSpace input = bracket.opening :: later)
    (takes : Takes bracket.next (bracket :: opened) (skipSpace later) rest) :
    Takes .value opened input rest := by
  obtain ⟨text, demands, inner⟩ := takes
  obtain ⟨entry, back, next, ⟨more, outer, others, closes, rfl⟩, rfl⟩ := (demands_next bracket text).mp demands
  obtain ⟨blanks, isBlanks, whole⟩ := exists_blanks later
  have value := Derives.bracketed (next.blanks isBlanks) others
  have behind : Takes .separator opened (outer ++ rest) rest := ⟨outer, closes, rfl⟩
  refine takes_value value ?_ behind
  rw [first, whole, inner]
  simp

end Steps

/-- The walk takes what it expects, up to the end of the outermost value. -/
theorem takes_of_walk {steps : Nat} {expected : Expected} {opened : List Bracket} {input rest : Bytes}
    (passed : walk ignoring steps expected opened input = .ok rest) : Takes expected opened input rest := by
  fun_induction walk ignoring steps expected opened input with
  | case2 steps input => exact ⟨[], rfl, Except.ok.inj passed⟩
  | case4 steps input opened later first inductionHypothesis
  | case6 steps input opened later first inductionHypothesis =>
    exact takes_comma _ first (inductionHypothesis passed)
  | case5 steps input opened later first inductionHypothesis =>
    exact takes_closing .array first (inductionHypothesis passed)
  | case7 steps input opened later first inductionHypothesis =>
    exact takes_closing .object first (inductionHypothesis passed)
  | case12 steps opened input text first behind string later colon inductionHypothesis =>
    exact takes_key first string colon (inductionHypothesis passed)
  | case17 steps opened input text first behind string inductionHypothesis =>
    exact takes_string first string (inductionHypothesis passed)
  | case18 steps opened input inner first admitted later closed inductionHypothesis =>
    exact takes_empty .array first closed (inductionHypothesis passed)
  | case21 steps opened input inner first admitted later closed inductionHypothesis =>
    exact takes_empty .object first closed (inductionHypothesis passed)
  | case19 steps opened input inner first admitted open_ inductionHypothesis =>
    exact takes_inside .array first (inductionHypothesis passed)
  | case22 steps opened input inner first admitted open_ inductionHypothesis =>
    exact takes_inside .object first (inductionHypothesis passed)
  | case25 steps opened input b later _ _ _ first lexeme behind found inductionHypothesis =>
    exact takes_lexeme first found (inductionHypothesis passed)
  | _ => exact absurd passed (by simp)

/-- What is passed over is a value, behind blanks. -/
theorem exists_entry_of_skipValue {input rest : Bytes} (passed : skipValue input = .ok rest) :
    ∃ entry, Derives (.entry .array) entry ∧ input = entry ++ rest := by
  obtain ⟨text, ⟨entry, back, element, closes, rfl⟩, whole⟩ := takes_of_walk passed
  obtain rfl : back = [] := closes
  exact ⟨entry, element, by simpa using whole⟩

/-- A text that is passed over as a whole is a value if no blanks stand in front. -/
theorem derives_of_skipValue {b : UInt8} {later : Bytes} (solid : isSpace b = false)
    (passed : skipValue (b :: later) = .ok []) : Derives .value (b :: later) := by
  obtain ⟨entry, derives, whole⟩ := exists_entry_of_skipValue passed
  rw [List.append_nil] at whole
  cases derives with
  | @element blanks value isBlanks isValue =>
    cases blanks with
    | nil =>
      rw [whole]
      exact isValue
    | cons c others =>
      have blank := isBlanks c List.mem_cons_self
      rw [← (List.cons.inj whole).1, solid] at blank
      exact absurd blank (by decide)

/-! ## Values are passed over -/

/-- Blanks do not go on with a number. -/
theorem endsNumber_blanks {blanks rest : Bytes} (isBlanks : Blanks blanks) (ends : EndsNumber rest) :
    EndsNumber (blanks ++ rest) := by
  cases blanks with
  | nil => exact ends
  | cons b others =>
    intro c first
    obtain rfl := Option.some.inj first
    have blank := isBlanks b List.mem_cons_self
    refine ⟨?_, ?_, ?_, ?_⟩
    · by_contra digit
      exact absurd (not_space_of_digit (Bool.not_eq_false _ ▸ digit)) (by simp [blank])
    all_goals
      rintro rfl
      exact absurd blank (by decide)

/-- Neither does what stands behind an entry. -/
theorem Derives.endsNumber {bracket : Bracket} {more : Bytes} (derives : Derives (.more bracket) more)
    (rest : Bytes) : EndsNumber (more ++ rest) := by
  have stop {b : UInt8} (other : isDigit b = false ∧ b ≠ 0x2E ∧ b ≠ 0x65 ∧ b ≠ 0x45) (later : Bytes) :
      EndsNumber (b :: later) := by
    intro c first
    obtain rfl := Option.some.inj first
    exact other
  cases derives with
  | closing isBlanks =>
    rw [List.append_assoc]
    apply endsNumber_blanks isBlanks
    cases bracket with
    | array => exact stop (by decide) _
    | object => exact stop (by decide) _
  | comma isBlanks next others =>
    rw [List.append_assoc]
    exact endsNumber_blanks isBlanks (stop (by decide) _)

/-- A value begins with a byte that is no blank and closes no array. -/
theorem Derives.begins {value : Bytes} (derives : Derives .value value) :
    ∃ b later, value = b :: later ∧ isSpace b = false ∧ b ≠ 0x5D := by
  cases derives with
  | string quoted => exact ⟨_, _, rfl, by decide, by decide⟩
  | lexeme isLexeme =>
    obtain ⟨b, later, begins, passed⟩ := isLexeme.skip endsNumber_nil
    refine ⟨b, later, by simpa using begins, solid_of_skipLexeme passed, ?_⟩
    rintro rfl
    exact absurd passed (by simp [skipLexeme, isDigit])
  | empty bracket isBlanks =>
    cases bracket with
    | array => exact ⟨_, _, rfl, by decide, by decide⟩
    | object => exact ⟨_, _, rfl, by decide, by decide⟩
  | bracketed first others =>
    rename_i bracket _ _
    cases bracket with
    | array => exact ⟨_, _, rfl, by decide, by decide⟩
    | object => exact ⟨_, _, rfl, by decide, by decide⟩

/-- An entry of a bracket does not begin with what closes the bracket. -/
theorem Derives.inside {bracket : Bracket} {entry : Bytes} (derives : Derives (.entry bracket) entry)
    (behind rest : Bytes) : skipSpace (entry ++ behind) ≠ bracket.closing :: rest := by
  intro closing
  cases derives with
  | element isBlanks isValue =>
    obtain ⟨b, later, rfl, solid, other⟩ := isValue.begins
    rw [List.append_assoc, List.cons_append, isBlanks.before solid] at closing
    exact other (List.cons.inj closing).1
  | member isBlanks quoted isGap element =>
    rw [List.append_assoc, List.cons_append, isBlanks.before (by decide)] at closing
    exact absurd (List.cons.inj closing).1 (by decide)

/-- The walk comes past a text of a phrase, whatever is open and whatever stands behind the text. In front of
an entry it does not matter how many of the blanks have been skipped. -/
def Moves : Phrase → Bytes → Prop
  | .value, text => ∀ {rest : Bytes}, EndsNumber rest → Passes (text ++ rest) rest
  | .entry bracket, text => ∀ {input rest : Bytes}, EndsNumber rest →
      skipSpace input = skipSpace (text ++ rest) →
      ∀ opened, Reaches ⟨bracket.next, opened, input⟩ ⟨.separator, opened, rest⟩
  | .more bracket, text => ∀ (rest : Bytes) opened,
      Reaches ⟨.separator, bracket :: opened, text ++ rest⟩ ⟨.separator, opened, rest⟩

theorem Derives.moves {phrase : Phrase} {text : Bytes} (derives : Derives phrase text) :
    Moves phrase text := by
  induction derives with
  | string quoted =>
    intro rest ends opened
    rw [List.cons_append, List.append_assoc, List.singleton_append]
    exact reaches_string (skipSpace_of_solid (by decide) _) (quoted.skip rest)
  | lexeme isLexeme =>
    intro rest ends opened
    obtain ⟨b, later, begins, passed⟩ := isLexeme.skip ends
    rw [begins]
    exact reaches_lexeme (skipSpace_of_solid (solid_of_skipLexeme passed) _) passed
  | empty bracket isBlanks =>
    intro rest ends opened
    rw [List.cons_append, List.append_assoc, List.singleton_append]
    exact reaches_empty bracket (skipSpace_of_solid bracket.solid.1 _)
      (isBlanks.before bracket.solid.2 rest)
  | @bracketed bracket entry more first others inner behind =>
    intro rest ends opened
    rw [List.cons_append, List.append_assoc]
    exact (reaches_inside bracket (skipSpace_of_solid bracket.solid.1 _)
      (first.inside (more ++ rest))).trans
        ((inner (others.endsNumber rest) (skipSpace_skipSpace _) _).trans (behind rest opened))
  | element isBlanks isValue moves =>
    intro input rest ends same opened
    obtain ⟨b, later, rfl, solid, other⟩ := isValue.begins
    rw [List.append_assoc, List.cons_append, isBlanks.before solid] at same
    apply Reaches.blanks
    rw [same]
    exact moves ends opened
  | @member blanks key gap value isBlanks quoted isGap element moves =>
    intro input rest ends same opened
    have first : skipSpace input = 0x22 :: (key ++ 0x22 :: (gap ++ 0x3A :: (value ++ rest))) := by
      rw [same, List.append_assoc, List.cons_append, isBlanks.before (by decide)]
      simp
    exact (reaches_key first (quoted.skip _) (isGap.before (by decide) _)).trans (moves ends rfl opened)
  | @closing bracket blanks isBlanks =>
    intro rest opened
    rw [List.append_assoc, List.singleton_append]
    exact reaches_closing bracket (isBlanks.before bracket.solid.2 rest)
  | @comma bracket blanks entry more isBlanks next others inner behind =>
    intro rest opened
    rw [List.append_assoc, List.cons_append, List.append_assoc]
    exact (reaches_comma bracket (isBlanks.before (by decide) _)).trans
      ((inner (others.endsNumber rest) rfl _).trans (behind rest opened))

/-- A value behind blanks is passed over if what follows does not go on with it. -/
theorem skipValue_entry {entry rest : Bytes} (derives : Derives (.entry .array) entry)
    (ends : EndsNumber rest) : skipValue (entry ++ rest) = .ok rest :=
  Passes.skipValue fun opened => derives.moves ends rfl opened

/-! ## Objects with named members -/

/-- A string of this text, in quotes. -/
def IsText (text : String) (value : Bytes) : Prop :=
  ∃ quoted, Spells quoted (Text.Utf8.encode text.toList) ∧ value = 0x22 :: (quoted ++ [0x22])

/-- A member with this name, decoded, and this value. -/
inductive NamedMember (name : String) (value : Bytes) : Bytes → Prop
  | written {blanks key gap space : Bytes} (isBlanks : Blanks blanks)
      (spells : Spells key (Text.Utf8.encode name.toList)) (isGap : Blanks gap) (isSpace : Blanks space)
      (isValue : Derives .value value) :
      NamedMember name value (blanks ++ 0x22 :: (key ++ 0x22 :: (gap ++ 0x3A :: (space ++ value))))

/-- The members of an object, the first of them or those behind it, up to the closing brace. -/
inductive Listing : Bool → List (String × Bytes) → Bytes → Prop
  | closing {first : Bool} {blanks : Bytes} (isBlanks : Blanks blanks) : Listing first [] (blanks ++ [0x7D])
  | first {name : String} {value member more : Bytes} {others : List (String × Bytes)}
      (isMember : NamedMember name value member) (later : Listing false others more) :
      Listing true ((name, value) :: others) (member ++ more)
  | comma {name : String} {blanks value member more : Bytes} {others : List (String × Bytes)}
      (isBlanks : Blanks blanks) (isMember : NamedMember name value member)
      (later : Listing false others more) :
      Listing false ((name, value) :: others) (blanks ++ 0x2C :: (member ++ more))

/-- The text is one object with these members, and blanks around it. -/
def IsObject (members : List (String × Bytes)) (text : Bytes) : Prop :=
  ∃ front inner behind, Blanks front ∧ Listing true members inner ∧ Blanks behind ∧
    text = front ++ 0x7B :: (inner ++ behind)

/-- An object begins with its brace. -/
theorem IsObject.begins {members : List (String × Bytes)} {text : Bytes} (isObject : IsObject members text) :
    (skipSpace text).head? = some 0x7B := by
  obtain ⟨front, inner, behind, isFront, -, -, rfl⟩ := isObject
  rw [isFront.before (by decide)]
  rfl

/-- The text is an array of one string of this text, and blanks around it. -/
def IsLoneText (text : String) (body : Bytes) : Prop :=
  ∃ front before value after behind, Blanks front ∧ Blanks before ∧ IsText text value ∧ Blanks after ∧
    Blanks behind ∧ body = front ++ 0x5B :: (before ++ (value ++ (after ++ 0x5D :: behind)))

theorem IsText.derives {text : String} {value : Bytes} (isText : IsText text value) :
    Derives .value value := by
  obtain ⟨quoted, spells, rfl⟩ := isText
  exact .string spells.quoted

theorem NamedMember.derives {name : String} {value member : Bytes} (isMember : NamedMember name value member) :
    Derives (.entry .object) member := by
  obtain ⟨isBlanks, spells, isGap, isSpace, isValue⟩ := isMember
  exact .member isBlanks spells.quoted isGap (.element isSpace isValue)

/-- Members behind the first one are what stands behind an entry of an object. -/
theorem Listing.derives {members : List (String × Bytes)} {text : Bytes} {first : Bool}
    (listing : Listing first members text) (later : first = false) : Derives (.more .object) text := by
  induction listing with
  | closing isBlanks => exact .closing isBlanks
  | first isMember _ _ => exact absurd later (by simp)
  | comma isBlanks isMember _ inductionHypothesis =>
    exact .comma isBlanks isMember.derives (inductionHypothesis rfl)

/-- Each member takes at least one byte. -/
theorem Listing.length_le {members : List (String × Bytes)} {text : Bytes} {first : Bool}
    (listing : Listing first members text) : members.length ≤ text.length := by
  induction listing with
  | closing isBlanks => exact Nat.zero_le _
  | first isMember _ inductionHypothesis =>
    cases isMember
    simp only [List.length_append, List.length_cons]
    omega
  | comma isBlanks isMember _ inductionHypothesis =>
    simp only [List.length_append, List.length_cons]
    omega

/-- Members between braces are a value. -/
theorem Listing.object {members : List (String × Bytes)} {text : Bytes} (listing : Listing true members text) :
    Derives .value (0x7B :: text) := by
  cases listing with
  | closing isBlanks => exact .empty .object isBlanks
  | first isMember later => exact .bracketed isMember.derives (later.derives rfl)

end LspProxy.Json
