import LspProxy.Proofs.Json.Records
import LspProxy.Proofs.Json.Strings

/-!
# What readers leave

A reader moves forward: what it leaves is a suffix of what it was given. For lexemes and ignored values
this is an induction on the reader's own steps; for a record it is joined to a property of what has been
read so far (`readRecord_invariant`). The fields of a record read at suffixes of its text, so a property
that each field keeps there is a property of the whole record, whether it is written as an object, among
members that nobody looks at, or as an array.
-/
namespace LspProxy.Json

/-! ## Lexemes -/

theorem skipSpace_suffix (input : Bytes) : skipSpace input <:+ input := List.dropWhile_suffix _

/-- What stands behind the first byte that is not blank. -/
theorem behind_first {input rest : Bytes} {b : UInt8} (first : skipSpace input = b :: rest) :
    rest <:+ input :=
  (List.suffix_cons b rest).trans (first ▸ skipSpace_suffix input)

theorem keyword_suffix {letters input rest : Bytes} (passed : keyword letters input = .ok rest) :
    rest <:+ input := by
  fun_induction keyword letters input with
  | case1 input => exact Except.ok.inj passed ▸ List.suffix_rfl
  | case3 letters b input inductionHypothesis =>
    exact (inductionHypothesis passed).trans (List.suffix_cons _ _)
  | _ => exact absurd passed (by simp)

theorem skipString_suffix {input rest : Bytes} (passed : skipString input = .ok rest) :
    rest <:+ input := by
  fun_induction skipString input with
  | case2 input => exact Except.ok.inj passed ▸ List.suffix_cons _ _
  | case4 h₁ h₂ h₃ h₄ input digits escape inductionHypothesis =>
    exact (inductionHypothesis passed).trans ⟨[_, _, _, _, _, _], rfl⟩
  | case7 letter input unnumbered known escape inductionHypothesis =>
    exact (inductionHypothesis passed).trans ⟨[_, _], rfl⟩
  | case10 b input quote escape control inductionHypothesis =>
    exact (inductionHypothesis passed).trans (List.suffix_cons _ _)
  | _ => exact absurd passed (by simp)

theorem skipExponent_suffix {input rest : Bytes} (passed : skipExponent input = .ok rest) :
    rest <:+ input := by
  unfold skipExponent at passed
  dsimp only at passed
  split at passed
  · rename_i b behind unsigned
    have ahead : b :: behind <:+ input := by
      cases input with
      | nil => exact absurd unsigned (by simp)
      | cons sign others =>
        dsimp only at unsigned
        split at unsigned
        · exact unsigned ▸ List.suffix_cons _ _
        · exact unsigned ▸ List.suffix_rfl
    split at passed
    · have digits : rest <:+ behind := Except.ok.inj passed ▸ List.dropWhile_suffix _
      exact digits.trans ((List.suffix_cons _ _).trans ahead)
    · exact absurd passed (by simp)
  · exact absurd passed (by simp)

theorem skipOptionalExponent_suffix {input rest : Bytes}
    (passed : skipOptionalExponent input = .ok rest) : rest <:+ input := by
  unfold skipOptionalExponent at passed
  split at passed
  · split at passed
    · exact (skipExponent_suffix passed).trans (List.suffix_cons _ _)
    · exact Except.ok.inj passed ▸ List.suffix_rfl
  · exact Except.ok.inj passed ▸ List.suffix_rfl

theorem skipFraction_suffix {input rest : Bytes} (passed : skipFraction input = .ok rest) :
    rest <:+ input := by
  unfold skipFraction at passed
  split at passed
  · split at passed
    · exact absurd passed (by simp)
    · exact (skipOptionalExponent_suffix passed).trans
        ((List.dropWhile_suffix _).trans (List.suffix_cons _ _))
  · exact skipOptionalExponent_suffix passed

theorem skipNumber_suffix {input rest : Bytes} (passed : skipNumber input = .ok rest) :
    rest <:+ input := by
  unfold skipNumber at passed
  split at passed
  · exact absurd passed (by simp)
  · split at passed
    · exact absurd passed (by simp)
    · exact (skipFraction_suffix passed).trans (List.dropWhile_suffix _)

theorem collectString_suffix {collected input octets rest : Bytes}
    (read : collectString collected input = .ok (octets, rest)) : rest <:+ input := by
  fun_induction collectString collected input with
  | case2 collected input =>
    simp only [Except.ok.injEq, Prod.mk.injEq] at read
    exact read.2 ▸ List.suffix_cons _ _
  | case6 collected h₁ h₂ h₃ h₄ input code digits high single escape inductionHypothesis =>
    exact (inductionHypothesis read).trans ⟨[_, _, _, _, _, _], rfl⟩
  | case11 =>
    rename_i inductionHypothesis
    exact (inductionHypothesis read).trans ⟨[_, _, _, _, _, _, _, _, _, _, _, _], rfl⟩
  | case16 collected letter input unnumbered byte stands escape inductionHypothesis =>
    exact (inductionHypothesis read).trans ⟨[_, _], rfl⟩
  | case19 collected b input quote escape control inductionHypothesis =>
    exact (inductionHypothesis read).trans (List.suffix_cons _ _)
  | _ => exact absurd read (by simp)

theorem readString_suffix {input rest : Bytes} {text : String}
    (read : readString input = .ok (text, rest)) : rest <:+ input :=
  collectString_suffix (readString_eq_ok_iff.mp read)

/-! ## Values -/

/-- The parts of a value are passed in the forward direction. -/
structure Manner.Forward (manner : Manner) : Prop where
  string : ∀ {input rest : Bytes}, manner.string input = .ok rest → rest <:+ input
  number : ∀ {negative : Bool} {input rest : Bytes},
    manner.number negative input = .ok rest → rest <:+ input

theorem ignoring_forward : ignoring.Forward := ⟨skipString_suffix, skipNumber_suffix⟩

/-- Each step of the walk goes on behind the byte, the lexeme or the blanks that it has passed. -/
theorem walk_suffix {manner : Manner} (forward : manner.Forward) {steps : Nat} {expected : Expected}
    {opened : List Bracket} {input rest : Bytes}
    (passed : walk manner steps expected opened input = .ok rest) : rest <:+ input := by
  fun_induction walk manner steps expected opened input with
  | case2 steps input => exact Except.ok.inj passed ▸ List.suffix_rfl
  | case4 steps input outer later first inductionHypothesis
  | case5 steps input outer later first inductionHypothesis
  | case6 steps input outer later first inductionHypothesis
  | case7 steps input outer later first inductionHypothesis =>
    exact (inductionHypothesis passed).trans (behind_first first)
  | case12 steps opened input text first behind string later colon inductionHypothesis =>
    exact (inductionHypothesis passed).trans
      ((behind_first colon).trans ((forward.string string).trans (behind_first first)))
  | case17 steps opened input text first behind string inductionHypothesis =>
    exact (inductionHypothesis passed).trans ((forward.string string).trans (behind_first first))
  | case18 steps opened input inner first admitted later closed inductionHypothesis
  | case21 steps opened input inner first admitted later closed inductionHypothesis =>
    exact (inductionHypothesis passed).trans ((behind_first closed).trans (behind_first first))
  | case19 steps opened input inner first admitted open_ inductionHypothesis
  | case22 steps opened input inner first admitted open_ inductionHypothesis =>
    exact (inductionHypothesis passed).trans ((skipSpace_suffix inner).trans (behind_first first))
  | case25 steps opened input b later _ _ _ first lexeme behind found inductionHypothesis =>
    have whole : b :: later <:+ input := first ▸ skipSpace_suffix input
    have inner : later <:+ input := behind_first first
    refine (inductionHypothesis passed).trans ?_
    unfold lexeme at found
    split at found
    · exact (keyword_suffix found).trans inner
    split at found
    · exact (keyword_suffix found).trans inner
    split at found
    · exact (keyword_suffix found).trans inner
    split at found
    · exact (forward.number found).trans inner
    split at found
    · exact (forward.number found).trans whole
    · exact absurd found (by simp)
  | _ => exact absurd passed (by simp)

theorem skipValue_suffix {input rest : Bytes} (passed : skipValue input = .ok rest) : rest <:+ input :=
  walk_suffix ignoring_forward passed

/-- A text in the place of a value is a string behind the blanks. -/
theorem readText_eq_ok {input rest : Bytes} {text : String} (read : readText input = .ok (text, rest)) :
    ∃ string, 0x22 :: string <:+ input ∧ readString string = .ok (text, rest) := by
  unfold readText at read
  split at read
  · rename_i string opened
    exact ⟨string, opened ▸ skipSpace_suffix input, read⟩
  · exact absurd read (by simp)

/-- An optional value is missing or is what the reader finds behind the blanks. -/
theorem readOptional_eq_ok {α : Type} {reader : Bytes → Except Fault (α × Bytes)} {input rest : Bytes}
    {value : Option α} (read : readOptional reader input = .ok (value, rest)) :
    (value = none ∧ rest <:+ input) ∨
      ∃ found, value = some found ∧ reader (skipSpace input) = .ok (found, rest) := by
  unfold readOptional at read
  split at read
  · rename_i later opened
    obtain ⟨behind, passed, made⟩ := bind_eq_ok_iff.mp read
    obtain ⟨rfl, rfl⟩ := Prod.mk.inj (Except.ok.inj made)
    exact .inl ⟨rfl, (keyword_suffix passed).trans (behind_first opened)⟩
  · obtain ⟨⟨inner, behind⟩, found, made⟩ := bind_eq_ok_iff.mp read
    obtain ⟨rfl, rfl⟩ := Prod.mk.inj (Except.ok.inj made)
    exact .inr ⟨inner, rfl, found⟩

theorem colon_suffix {input rest : Bytes} (passed : colon input = .ok rest) : rest <:+ input := by
  unfold colon at passed
  split at passed
  · exact absurd passed (by simp)
  · rename_i first
    exact Except.ok.inj passed ▸ behind_first first
  · exact absurd passed (by simp)

/-! ## Records -/

section Records

variable {σ : Type} {P : σ → Prop} {text : Bytes} {fields : List (Field σ)}

/-- The fields keep a property of what has been read, wherever in the text they read. -/
def Keeps (P : σ → Prop) (text : Bytes) (fields : List (Field σ)) : Prop :=
  ∀ field ∈ fields, ∀ {state next : σ} {depth : Nat} {input rest : Bytes}, input <:+ text → P state →
    field.read state depth input = .ok (next, rest) → P next ∧ rest <:+ input

theorem Ahead.suffix {first : Bool} {input here : Bytes} (ahead : Ahead first input here) :
    here <:+ input := by
  cases ahead with
  | initial => exact List.suffix_rfl
  | comma comma => exact behind_first comma

/-- The elements of an array, one after the other. -/
theorem Elements.invariant {depth : Nat} {state last : σ} {first : Bool} {input rest : Bytes}
    (elements : Elements depth fields state first input last rest) (keeps : Keeps P text fields)
    (inside : input <:+ text) (start : P state) : P last ∧ rest <:+ input := by
  induction elements with
  | closed closing complete => exact ⟨start, behind_first closing⟩
  | @element field others _ _ _ _ _ _ here _ _ _ ahead begins solid value _ inductionHypothesis =>
    have later : Keeps P text others := fun f member => keeps f (List.mem_cons_of_mem _ member)
    have before := (begins ▸ skipSpace_suffix here).trans ahead.suffix
    obtain ⟨kept, forward⟩ := keeps field List.mem_cons_self (before.trans inside) start value
    obtain ⟨done, back⟩ := inductionHypothesis later ((forward.trans before).trans inside) kept
    exact ⟨done, back.trans (forward.trans before)⟩

/-- A member changes what has been read only as its field does, and not at all if no field has its
key. -/
theorem Member.invariant {depth : Nat} {state last : σ} {input rest : Bytes}
    (member : Member fields depth state input last rest) (keeps : Keeps P text fields)
    (inside : input <:+ text) (start : P state) : P last ∧ rest <:+ input := by
  cases member with
  | known name found unseen separator read =>
    have ahead := (colon_suffix separator).trans (readString_suffix name)
    obtain ⟨kept, back⟩ := keeps _ (List.mem_of_find?_eq_some found) (ahead.trans inside) start read
    exact ⟨kept, back.trans ahead⟩
  | unknown name found separator passed =>
    have ahead := (colon_suffix separator).trans (readString_suffix name)
    exact ⟨start, (skipValue_suffix passed).trans ahead⟩

/-- The members of an object, one after the other. -/
theorem Members.invariant {depth steps : Nat} {state last : σ} {first : Bool} {input rest : Bytes}
    (members : Members fields depth steps state first input last rest) (keeps : Keeps P text fields)
    (inside : input <:+ text) (start : P state) : P last ∧ rest <:+ input := by
  induction members with
  | closed closing complete => exact ⟨start, behind_first closing⟩
  | member ahead opening member _ inductionHypothesis =>
    have before := (behind_first opening).trans ahead.suffix
    obtain ⟨kept, forward⟩ := member.invariant keeps (before.trans inside) start
    obtain ⟨done, back⟩ := inductionHypothesis ((forward.trans before).trans inside) kept
    exact ⟨done, back.trans (forward.trans before)⟩

/-- What the fields keep holds of a whole record, in either of its forms. -/
theorem readRecord_invariant {input : Bytes} (keeps : Keeps P input fields) {depth : Nat}
    {state last : σ} {rest : Bytes} (start : P state)
    (read : readRecord fields state depth input = .ok (last, rest)) : P last ∧ rest <:+ input := by
  obtain ⟨-, ⟨inner, opening, elements⟩ | ⟨inner, opening, members⟩⟩ := readRecord_eq_ok_iff.mp read
  · obtain ⟨kept, forward⟩ := elements.invariant keeps (behind_first opening) start
    exact ⟨kept, forward.trans (behind_first opening)⟩
  · obtain ⟨kept, forward⟩ := members.invariant keeps (behind_first opening) start
    exact ⟨kept, forward.trans (behind_first opening)⟩

end Records

end LspProxy.Json
