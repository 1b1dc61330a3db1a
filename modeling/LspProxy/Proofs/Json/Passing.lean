import LspProxy.Proofs.Json.Outlines
import Mathlib.Data.List.DropRight

/-!
# Kept values are passed over

A value that is read is passed over when nobody looks at it, up to the same place. A record is read by
recursion and passed over by a walk with a list of open brackets, so the walk is described from point to
point (`Reaches`): it passes a value if it comes from in front of it to behind it whatever brackets are
open (`Passes`), which is so of every value that is passed over alone and of every record whose fields are.
-/
namespace LspProxy.Json

/-! ## Points of the walk -/

/-- Where a walk over ignored values stands. -/
structure Point where
  expected : Expected
  opened : List Bracket
  input : Bytes

/-- The rest of the walk, in so many steps. -/
def Point.walk (point : Point) (steps : Nat) : Except Fault Bytes :=
  Json.walk ignoring steps point.expected point.opened point.input

/-- The walk comes from one point to another, with no more steps than bytes. -/
def Reaches (start stop : Point) : Prop :=
  ∃ taken, taken + stop.input.length ≤ start.input.length ∧
    ∀ steps, start.walk (taken + steps) = stop.walk steps

theorem Reaches.refl (point : Point) : Reaches point point := by
  refine ⟨0, by omega, ?_⟩
  intro steps
  rw [Nat.zero_add]

theorem Reaches.trans {start middle stop : Point} (front : Reaches start middle)
    (back : Reaches middle stop) : Reaches start stop := by
  obtain ⟨first, firstBytes, firstSteps⟩ := front
  obtain ⟨second, secondBytes, secondSteps⟩ := back
  refine ⟨first + second, by omega, ?_⟩
  intro steps
  rw [Nat.add_assoc, firstSteps, secondSteps]

/-- A single step that takes at least one byte. -/
theorem Reaches.step {start stop : Point} (step : ∀ steps, start.walk (steps + 1) = stop.walk steps)
    (shorter : stop.input.length < start.input.length) : Reaches start stop := by
  refine ⟨1, by omega, ?_⟩
  intro steps
  rw [Nat.add_comm]
  exact step steps

/-! ## Single steps -/

section Steps

variable {opened : List Bracket} {input later rest : Bytes} {b : UInt8}

/-- What stands behind the first byte that is not blank is shorter. -/
theorem length_lt_of_behind (first : skipSpace input = b :: later) (behind : rest <:+ later) :
    rest.length < input.length := by
  have whole := (skipSpace_suffix input).length_le
  rw [first, List.length_cons] at whole
  have part := behind.length_le
  omega

theorem skipSpace_skipSpace (input : Bytes) : skipSpace (skipSpace input) = skipSpace input :=
  List.dropWhile_idempotent isSpace input

/-- A byte that begins a number or a keyword, with what follows, is passed. -/
def skipLexeme (b : UInt8) (rest : Bytes) : Except Fault Bytes :=
  if b = 0x6E then keyword nullRest rest
  else if b = 0x74 then keyword trueRest rest
  else if b = 0x66 then keyword falseRest rest
  else if b = 0x2D then skipNumber rest
  else if isDigit b then skipNumber (b :: rest)
  else .error .malformed

theorem skipLexeme_of_digit (digit : isDigit b = true) : skipLexeme b later = skipNumber (b :: later) := by
  have other {c : UInt8} (noDigit : isDigit c = false) : b ≠ c := by
    rintro rfl
    exact absurd digit (by simp [noDigit])
  unfold skipLexeme
  rw [if_neg (other (by decide)), if_neg (other (by decide)), if_neg (other (by decide)),
    if_neg (other (by decide)), if_pos digit]

/-- At least the first byte of a number or a keyword is taken. -/
theorem skipLexeme_suffix (passed : skipLexeme b later = .ok rest) : rest <:+ later := by
  unfold skipLexeme at passed
  split at passed
  · exact keyword_suffix passed
  split at passed
  · exact keyword_suffix passed
  split at passed
  · exact keyword_suffix passed
  split at passed
  · exact skipNumber_suffix passed
  split at passed
  · rename_i digit
    unfold skipNumber at passed
    split at passed
    · exact absurd passed (by simp)
    split at passed
    · exact absurd passed (by simp)
    · have ahead := skipFraction_suffix passed
      rw [List.dropWhile_cons_of_pos digit] at ahead
      exact ahead.trans (List.dropWhile_suffix _)
  · exact absurd passed (by simp)

theorem reaches_string (first : skipSpace input = 0x22 :: later) (string : skipString later = .ok rest) :
    Reaches ⟨.value, opened, input⟩ ⟨.separator, opened, rest⟩ := by
  apply Reaches.step
  · intro steps
    change walk ignoring (steps + 1) .value opened input = walk ignoring steps .separator opened rest
    rw [walk.eq_def]
    have passed : ignoring.string later = .ok rest := string
    simp only [first, passed]
  · exact length_lt_of_behind first (skipString_suffix string)

theorem reaches_lexeme (first : skipSpace input = b :: later) (lexeme : skipLexeme b later = .ok rest) :
    Reaches ⟨.value, opened, input⟩ ⟨.separator, opened, rest⟩ := by
  apply Reaches.step
  · intro steps
    change walk ignoring (steps + 1) .value opened input = walk ignoring steps .separator opened rest
    rw [walk.eq_def]
    dsimp only
    split
    · rename_i empty
      exact absurd (first.symm.trans empty) (by simp)
    · rename_i text quoted
      obtain ⟨rfl, rfl⟩ := List.cons.inj (first.symm.trans quoted)
      exact absurd lexeme (by simp [skipLexeme, isDigit])
    · rename_i inner bracket
      obtain ⟨rfl, rfl⟩ := List.cons.inj (first.symm.trans bracket)
      exact absurd lexeme (by simp [skipLexeme, isDigit])
    · rename_i inner brace
      obtain ⟨rfl, rfl⟩ := List.cons.inj (first.symm.trans brace)
      exact absurd lexeme (by simp [skipLexeme, isDigit])
    · rename_i b' later' _ _ _ begins
      obtain ⟨rfl, rfl⟩ := List.cons.inj (first.symm.trans begins)
      unfold skipLexeme at lexeme
      dsimp only [ignoring]
      rw [lexeme]
  · exact length_lt_of_behind first (skipLexeme_suffix lexeme)

/-- What is expected inside of a bracket, at its beginning and behind a comma. -/
def Bracket.next : Bracket → Expected
  | .array => .value
  | .object => .key

/-- The byte that opens a bracket. -/
def Bracket.opening : Bracket → UInt8
  | .array => 0x5B
  | .object => 0x7B

/-- The byte that closes a bracket. -/
def Bracket.closing : Bracket → UInt8
  | .array => 0x5D
  | .object => 0x7D

/-- A bracket that is closed at once. -/
theorem reaches_empty (bracket : Bracket) (first : skipSpace input = bracket.opening :: later)
    (closed : skipSpace later = bracket.closing :: rest) :
    Reaches ⟨.value, opened, input⟩ ⟨.separator, opened, rest⟩ := by
  apply Reaches.step
  · intro steps
    change walk ignoring (steps + 1) .value opened input = walk ignoring steps .separator opened rest
    rw [walk.eq_def]
    cases bracket
    all_goals
      simp only [first, closed, Bracket.opening, Bracket.closing]
      rfl
  · exact length_lt_of_behind first (behind_first closed)

/-- A bracket that is not closed at once. -/
theorem reaches_inside (bracket : Bracket) (first : skipSpace input = bracket.opening :: later)
    (inside : ∀ rest, skipSpace later ≠ bracket.closing :: rest) :
    Reaches ⟨.value, opened, input⟩ ⟨bracket.next, bracket :: opened, skipSpace later⟩ := by
  apply Reaches.step
  · intro steps
    change walk ignoring (steps + 1) .value opened input =
      walk ignoring steps bracket.next (bracket :: opened) (skipSpace later)
    rw [walk.eq_def]
    cases bracket
    all_goals
      simp only [Bracket.closing] at inside
      simp only [first, Bracket.opening]
      exact if_pos rfl
  · exact length_lt_of_behind first (skipSpace_suffix later)

theorem reaches_comma (bracket : Bracket) (first : skipSpace input = 0x2C :: rest) :
    Reaches ⟨.separator, bracket :: opened, input⟩ ⟨bracket.next, bracket :: opened, rest⟩ := by
  apply Reaches.step
  · intro steps
    cases bracket
    all_goals
      change walk ignoring (steps + 1) .separator _ input = _
      rw [walk.eq_def]
      simp only [first]
      rfl
  · exact length_lt_of_behind first List.suffix_rfl

theorem reaches_closing (bracket : Bracket) (first : skipSpace input = bracket.closing :: rest) :
    Reaches ⟨.separator, bracket :: opened, input⟩ ⟨.separator, opened, rest⟩ := by
  apply Reaches.step
  · intro steps
    cases bracket
    all_goals
      change walk ignoring (steps + 1) .separator _ input = _
      rw [walk.eq_def]
      simp only [first, Bracket.closing]
      rfl
  · exact length_lt_of_behind first List.suffix_rfl

theorem reaches_key {behind : Bytes} (first : skipSpace input = 0x22 :: later)
    (string : skipString later = .ok behind) (separator : skipSpace behind = 0x3A :: rest) :
    Reaches ⟨.key, opened, input⟩ ⟨.value, opened, rest⟩ := by
  apply Reaches.step
  · intro steps
    change walk ignoring (steps + 1) .key opened input = walk ignoring steps .value opened rest
    rw [walk.eq_def]
    have passed : ignoring.string later = .ok behind := string
    simp only [first, passed]
    simp only [separator]
  · exact length_lt_of_behind first ((behind_first separator).trans (skipString_suffix string))

end Steps

/-! ## Values -/

/-- A value is passed over inside of any open brackets. -/
def Passes (input rest : Bytes) : Prop :=
  ∀ opened, Reaches ⟨.value, opened, input⟩ ⟨.separator, opened, rest⟩

/-- Blanks in front of a value do not matter. -/
theorem Reaches.blanks {opened : List Bracket} {input : Bytes} {stop : Point}
    (reaches : Reaches ⟨.value, opened, skipSpace input⟩ stop) :
    Reaches ⟨.value, opened, input⟩ stop := by
  obtain ⟨taken, bytes, steps⟩ := reaches
  refine ⟨taken, Nat.le_trans bytes (skipSpace_suffix input).length_le, ?_⟩
  intro more
  rw [← steps more]
  change walk ignoring _ .value opened input = walk ignoring _ .value opened (skipSpace input)
  cases taken + more with
  | zero => rfl
  | succ steps =>
    rw [walk.eq_def, walk.eq_def]
    dsimp only
    rw [skipSpace_skipSpace]

theorem Passes.blanks {input rest : Bytes} (passes : Passes (skipSpace input) rest) :
    Passes input rest :=
  fun opened => (passes opened).blanks

/-- A value that is passed over inside of brackets is passed over alone. -/
theorem Passes.skipValue {input rest : Bytes} (passes : Passes input rest) :
    skipValue input = .ok rest := by
  obtain ⟨taken, bytes, steps⟩ := passes []
  obtain ⟨more, whole⟩ : ∃ more, input.length + 1 = taken + (more + 1) :=
    ⟨input.length - taken, by dsimp only at bytes; omega⟩
  change walk ignoring (input.length + 1) .value [] input = _
  rw [whole]
  exact steps (more + 1)

/-- A walk that passes a value alone passes it inside of brackets. -/
theorem reaches_of_walk {steps : Nat} {expected : Expected} {inner : List Bracket} {input rest : Bytes}
    (passed : walk ignoring steps expected inner input = .ok rest) (outer : List Bracket) :
    Reaches ⟨expected, inner ++ outer, input⟩ ⟨.separator, outer, rest⟩ := by
  fun_induction walk ignoring steps expected inner input with
  | case2 steps input => exact Except.ok.inj passed ▸ Reaches.refl _
  | case4 steps input opened later first inductionHypothesis
  | case6 steps input opened later first inductionHypothesis =>
    exact (reaches_comma _ first).trans (inductionHypothesis passed)
  | case5 steps input opened later first inductionHypothesis =>
    exact (reaches_closing .array first).trans (inductionHypothesis passed)
  | case7 steps input opened later first inductionHypothesis =>
    exact (reaches_closing .object first).trans (inductionHypothesis passed)
  | case12 steps opened input text first behind string later colon inductionHypothesis =>
    exact (reaches_key first string colon).trans (inductionHypothesis passed)
  | case17 steps opened input text first behind string inductionHypothesis =>
    exact (reaches_string first string).trans (inductionHypothesis passed)
  | case18 steps opened input inner first admitted later closed inductionHypothesis =>
    exact (reaches_empty .array first closed).trans (inductionHypothesis passed)
  | case21 steps opened input inner first admitted later closed inductionHypothesis =>
    exact (reaches_empty .object first closed).trans (inductionHypothesis passed)
  | case19 steps opened input inner first admitted open_ inductionHypothesis =>
    exact (reaches_inside .array first open_).trans (inductionHypothesis passed)
  | case22 steps opened input inner first admitted open_ inductionHypothesis =>
    exact (reaches_inside .object first open_).trans (inductionHypothesis passed)
  | case25 steps opened input b later _ _ _ first lexeme behind found inductionHypothesis =>
    exact (reaches_lexeme first found).trans (inductionHypothesis passed)
  | _ => exact absurd passed (by simp)

theorem passes_of_skipValue {input rest : Bytes} (passed : skipValue input = .ok rest) :
    Passes input rest :=
  fun opened => reaches_of_walk passed opened

/-! ## Values of a known shape -/

theorem passes_readText {input rest : Bytes} {text : String} (read : readText input = .ok (text, rest)) :
    Passes input rest := by
  intro opened
  unfold readText at read
  split at read
  · rename_i later first
    exact reaches_string first (skipString_of_collectString (readString_eq_ok_iff.mp read))
  · exact absurd read (by simp)

/-- A number is outlined correctly whatever is made of it. -/
theorem skipNumber_of_bind {α : Type} {negative : Bool} {input rest : Bytes} {value : α}
    {next : Number × Bytes → Except Fault (α × Bytes)}
    (keeps : ∀ {number behind}, next (number, behind) = .ok (value, rest) → behind = rest)
    (read : (readNumber negative input >>= next) = .ok (value, rest)) : skipNumber input = .ok rest := by
  obtain ⟨⟨number, behind⟩, found, made⟩ := bind_eq_ok_iff.mp read
  rw [← keeps made]
  exact skipNumber_of_readNumber found

theorem passes_readNatural {bound n : Nat} {input rest : Bytes}
    (read : readNatural bound input = .ok (n, rest)) : Passes input rest := by
  intro opened
  unfold readNatural at read
  extract_lets bounded at read
  have keeps {number : Number} {behind : Bytes} (made : bounded (number, behind) = .ok (n, rest)) :
      behind = rest := by
    cases number with
    | integer value =>
      dsimp only [bounded] at made
      split at made
      · exact (Prod.mk.inj (Except.ok.inj made)).2
      · exact absurd made (by simp)
    | fractional => exact absurd made (by simp [bounded])
  split at read
  · exact absurd read (by simp)
  · rename_i b later first
    apply reaches_lexeme first
    split at read
    · rename_i sign
      rw [sign]
      exact skipNumber_of_bind keeps read
    split at read
    · rename_i digit
      rw [skipLexeme_of_digit digit]
      exact skipNumber_of_bind keeps read
    · exact absurd read (by simp)

/-- A natural number that is read lies below the bound. -/
theorem readNatural_lt {bound n : Nat} {input rest : Bytes} (read : readNatural bound input = .ok (n, rest)) :
    n < bound := by
  unfold readNatural at read
  extract_lets bounded at read
  have below {negative : Bool} {digits : Bytes}
      (found : (readNumber negative digits >>= bounded) = .ok (n, rest)) : n < bound := by
    obtain ⟨⟨number, behind⟩, _, made⟩ := bind_eq_ok_iff.mp found
    cases number with
    | integer value =>
      dsimp only [bounded] at made
      split at made
      · rename_i inside
        obtain ⟨rfl, _⟩ := Prod.mk.inj (Except.ok.inj made)
        exact inside.2
      · exact absurd made (by simp)
    | fractional => exact absurd made (by simp [bounded])
  split at read
  · exact absurd read (by simp)
  · split at read
    · exact below read
    split at read
    · exact below read
    · exact absurd read (by simp)

/-- An optional value is passed over if the value is. -/
theorem passes_readOptional {α : Type} {reader : Bytes → Except Fault (α × Bytes)}
    (passes : ∀ {here behind : Bytes} {found : α}, reader here = .ok (found, behind) → Passes here behind)
    {input rest : Bytes} {value : Option α} (read : readOptional reader input = .ok (value, rest)) :
    Passes input rest := by
  unfold readOptional at read
  split at read
  · rename_i later first
    obtain ⟨behind, passed, read⟩ := bind_eq_ok_iff.mp read
    obtain ⟨-, rfl⟩ := Prod.mk.inj (Except.ok.inj read)
    intro opened
    exact reaches_lexeme first passed
  · obtain ⟨⟨inner, behind⟩, found, read⟩ := bind_eq_ok_iff.mp read
    obtain ⟨-, rfl⟩ := Prod.mk.inj (Except.ok.inj read)
    exact (passes found).blanks

/-! ## Records -/

section Records

variable {σ : Type} {fields : List (Field σ)} {depth : Nat}

/-- Each field passes over what it reads. -/
def EachPasses (fields : List (Field σ)) : Prop :=
  ∀ field ∈ fields, ∀ {state next : σ} {depth : Nat} {input rest : Bytes},
    field.read state depth input = .ok (next, rest) → Passes input rest

theorem EachPasses.tail {field : Field σ} (each : EachPasses (field :: fields)) : EachPasses fields :=
  fun f member => each f (List.mem_cons_of_mem _ member)

/-- The elements behind the first one. -/
theorem Elements.reaches {state last : σ} {first : Bool} {input rest : Bytes}
    (elements : Elements depth fields state first input last rest) (each : EachPasses fields)
    (later : first = false) (opened : List Bracket) :
    Reaches ⟨.separator, .array :: opened, input⟩ ⟨.separator, opened, rest⟩ := by
  induction elements with
  | closed closing complete => exact reaches_closing .array closing
  | element ahead begins solid value _ inductionHypothesis =>
    cases ahead with
    | initial => exact absurd later (by simp)
    | comma comma =>
      have element := each _ List.mem_cons_self value (.array :: opened)
      rw [← begins] at element
      exact (reaches_comma .array comma).trans
        (element.blanks.trans (inductionHypothesis each.tail rfl))

/-- A record written as an array. -/
theorem Elements.passes {state last : σ} {input inner rest : Bytes}
    (elements : Elements depth fields state true inner last rest) (each : EachPasses fields)
    (opening : skipSpace input = 0x5B :: inner) : Passes input rest := by
  intro opened
  cases elements with
  | closed closing complete => exact reaches_empty .array opening closing
  | element ahead begins solid value others =>
    cases ahead
    have inside : ∀ rest, skipSpace inner ≠ 0x5D :: rest := by
      intro rest closing
      exact solid (List.cons.inj (begins.symm.trans closing)).1
    have element := each _ List.mem_cons_self value (.array :: opened)
    rw [← begins] at element
    exact (reaches_inside .array opening inside).trans
      (element.trans (others.reaches each.tail rfl opened))

/-- A member is passed over from its key on. -/
theorem Member.reaches {state next : σ} {input inner rest : Bytes}
    (member : Member fields depth state inner next rest) (each : EachPasses fields)
    (opening : skipSpace input = 0x22 :: inner) (opened : List Bracket) :
    Reaches ⟨.key, opened, input⟩ ⟨.separator, opened, rest⟩ := by
  have value {key : String} {behind here : Bytes} (name : readString inner = .ok (key, behind))
      (separator : colon behind = .ok here) (passes : Passes here rest) :
      Reaches ⟨.key, opened, input⟩ ⟨.separator, opened, rest⟩ := by
    have string := skipString_of_collectString (readString_eq_ok_iff.mp name)
    unfold colon at separator
    split at separator
    · exact absurd separator (by simp)
    · rename_i after
      obtain rfl := Except.ok.inj separator
      exact (reaches_key opening string after).trans (passes opened)
    · exact absurd separator (by simp)
  cases member with
  | known name found unseen separator read =>
    exact value name separator (each _ (List.mem_of_find?_eq_some found) read)
  | unknown name found separator passed => exact value name separator (passes_of_skipValue passed)

/-- The members behind the first one. -/
theorem Members.reaches {steps : Nat} {state last : σ} {first : Bool} {input rest : Bytes}
    (members : Members fields depth steps state first input last rest) (each : EachPasses fields)
    (later : first = false) (opened : List Bracket) :
    Reaches ⟨.separator, .object :: opened, input⟩ ⟨.separator, opened, rest⟩ := by
  induction members with
  | closed closing complete => exact reaches_closing .object closing
  | member ahead opening member _ inductionHypothesis =>
    cases ahead with
    | initial => exact absurd later (by simp)
    | comma comma =>
      exact (reaches_comma .object comma).trans
        ((member.reaches each opening _).trans (inductionHypothesis rfl))

/-- A record written as an object. -/
theorem Members.passes {steps : Nat} {state last : σ} {input inner rest : Bytes}
    (members : Members fields depth steps state true inner last rest) (each : EachPasses fields)
    (opening : skipSpace input = 0x7B :: inner) : Passes input rest := by
  intro opened
  cases members with
  | closed closing complete => exact reaches_empty .object opening closing
  | member ahead quote member others =>
    cases ahead
    have inside : ∀ rest, skipSpace inner ≠ 0x7D :: rest := by
      intro rest closing
      exact absurd (List.cons.inj (quote.symm.trans closing)).1 (by decide)
    have key := (skipSpace_skipSpace inner).trans quote
    exact (reaches_inside .object opening inside).trans
      ((member.reaches each key _).trans (others.reaches each rfl opened))

/-- A record is passed over if each of its fields is. -/
theorem passes_readRecord (each : EachPasses fields) {state last : σ} {input rest : Bytes}
    (read : readRecord fields state depth input = .ok (last, rest)) : Passes input rest := by
  obtain ⟨-, ⟨inner, opening, elements⟩ | ⟨inner, opening, members⟩⟩ := readRecord_eq_ok_iff.mp read
  · exact elements.passes each opening
  · exact members.passes each opening

/-- What each field keeps of what has been read is kept at the end of the record. -/
theorem readRecord_keeps {P : σ → Prop} (each : EachPasses fields)
    (keeps : ∀ field ∈ fields, ∀ {state next : σ} {depth : Nat} {input rest : Bytes}, P state →
      field.read state depth input = .ok (next, rest) → P next)
    {state last : σ} {input rest : Bytes} (start : P state)
    (read : readRecord fields state depth input = .ok (last, rest)) : P last := by
  have kept : Keeps P input fields := by
    intro field member state next depth here behind inside holds value
    exact ⟨keeps field member holds value, skipValue_suffix (each field member value).skipValue⟩
  exact (readRecord_invariant kept start read).1

end Records

end LspProxy.Json
