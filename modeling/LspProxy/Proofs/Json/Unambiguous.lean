import LspProxy.Proofs.Json.Respacing

/-!
# Texts are read in one way

A text is an object, an array or a string in at most one way: the members that are listed in it, the elements,
and the text that is spelled in it are determined (`IsObject.unique`, `IsArray.unique`, `IsText.unique`).

Where a value ends is for the walk over it to say, and the walk comes to one end (`Derives.unique`). Blanks end
where something else begins, and a name ends with the string that reads it. So of two readings of one text the
first parts are the same, and the induction goes on with what is left.
-/
namespace LspProxy.Json

/-! ## Parts -/

/-- What stands behind an entry does not go on with a number. -/
theorem endsNumber_of_more {bracket : Bracket} {more : Bytes} (derives : Derives (.more bracket) more) :
    EndsNumber more := by
  have ends := derives.endsNumber []
  rwa [List.append_nil] at ends

/-- Blanks end where something else begins. -/
theorem Blanks.unique {blanks blanks' rest rest' : Bytes} {b c : UInt8} (isBlanks : Blanks blanks)
    (isBlanks' : Blanks blanks') (solid : isSpace b = false) (solid' : isSpace c = false)
    (same : blanks ++ b :: rest = blanks' ++ c :: rest') : b = c ∧ rest = rest' := by
  have left := congrArg skipSpace same
  rw [isBlanks.before solid, isBlanks'.before solid'] at left
  exact List.cons.inj left

/-- A value ends where the walk over it ends. -/
theorem Derives.unique {value value' rest rest' : Bytes} (isValue : Derives .value value)
    (isValue' : Derives .value value') (ends : EndsNumber rest) (ends' : EndsNumber rest')
    (same : value ++ rest = value' ++ rest') : value = value' ∧ rest = rest' := by
  have passed := skipValue_entry (.element blanks_nil isValue) ends
  have passed' := skipValue_entry (.element blanks_nil isValue') ends'
  rw [List.nil_append] at passed passed'
  rw [same, passed'] at passed
  obtain rfl := Except.ok.inj passed
  exact ⟨List.append_cancel_right same, rfl⟩

/-- So does one that stands behind blanks. -/
theorem Derives.unique_behind {blanks blanks' value value' rest rest' : Bytes} (isBlanks : Blanks blanks)
    (isBlanks' : Blanks blanks') (isValue : Derives .value value) (isValue' : Derives .value value')
    (ends : EndsNumber rest) (ends' : EndsNumber rest')
    (same : blanks ++ (value ++ rest) = blanks' ++ (value' ++ rest')) : value = value' ∧ rest = rest' := by
  apply isValue.unique isValue' ends ends'
  obtain ⟨b, later, rfl, solid, -⟩ := isValue.begins
  obtain ⟨c, later', rfl, solid', -⟩ := isValue'.begins
  obtain ⟨rfl, left⟩ := isBlanks.unique isBlanks' solid solid' same
  exact congrArg (b :: ·) left

/-- What stands between quotes spells one text, up to the quote. -/
theorem Spells.unique {quoted quoted' rest rest' : Bytes} {text text' : String}
    (spells : Spells quoted (Text.Utf8.encode text.toList))
    (spells' : Spells quoted' (Text.Utf8.encode text'.toList))
    (same : quoted ++ 0x22 :: rest = quoted' ++ 0x22 :: rest') : text = text' ∧ rest = rest' := by
  have read := spells.read rest
  rw [same, spells'.read rest'] at read
  obtain ⟨rfl, rfl⟩ := Prod.mk.inj (Except.ok.inj read)
  exact ⟨rfl, rfl⟩

/-- A string has one text. -/
theorem IsText.unique {text text' : String} {value : Bytes} (isText : IsText text value)
    (isText' : IsText text' value) : text = text' := by
  obtain ⟨quoted, spells, rfl⟩ := isText
  obtain ⟨quoted', spells', same⟩ := isText'
  exact (spells.unique spells' (List.cons.inj same).2).1

/-! ## Objects -/

/-- A member that others stand behind has one name and one value. -/
theorem NamedMember.unique {name name' : String} {value value' member member' rest rest' : Bytes}
    (isMember : NamedMember name value member) (isMember' : NamedMember name' value' member')
    (ends : EndsNumber rest) (ends' : EndsNumber rest') (same : member ++ rest = member' ++ rest') :
    (name = name' ∧ value = value') ∧ rest = rest' := by
  obtain ⟨isBlanks, spells, isGap, isSpace, isValue⟩ := isMember
  obtain ⟨isBlanks', spells', isGap', isSpace', isValue'⟩ := isMember'
  simp only [List.append_assoc, List.cons_append] at same
  obtain ⟨-, named⟩ := isBlanks.unique isBlanks' (by decide) (by decide) same
  obtain ⟨rfl, behind⟩ := spells.unique spells' named
  obtain ⟨-, valued⟩ := isGap.unique isGap' (by decide) (by decide) behind
  obtain ⟨rfl, rfl⟩ := isValue.unique_behind isSpace isSpace' isValue' ends ends' valued
  exact ⟨⟨rfl, rfl⟩, rfl⟩

/-- A member begins with the quote of its name. -/
theorem NamedMember.begins {name : String} {value member : Bytes} (isMember : NamedMember name value member) :
    ∃ blanks later, Blanks blanks ∧ member = blanks ++ 0x22 :: later := by
  obtain ⟨isBlanks, _, _, _, _⟩ := isMember
  exact ⟨_, _, isBlanks, rfl⟩

/-- The members that are listed are determined, and so is what stands behind them. -/
theorem Listing.unique {first : Bool} {members members' : List (String × Bytes)}
    {text text' rest rest' : Bytes} (listing : Listing first members text)
    (listing' : Listing first members' text') (same : text ++ rest = text' ++ rest') :
    members = members' ∧ rest = rest' := by
  induction listing generalizing members' text' with
  | closing isBlanks =>
    rw [List.append_assoc, List.singleton_append] at same
    cases listing' with
    | closing isBlanks' =>
      rw [List.append_assoc, List.singleton_append] at same
      exact ⟨rfl, (isBlanks.unique isBlanks' (by decide) (by decide) same).2⟩
    | first isMember' later' =>
      obtain ⟨_, _, isBlanks', rfl⟩ := isMember'.begins
      simp only [List.append_assoc, List.cons_append] at same
      exact absurd (isBlanks.unique isBlanks' (by decide) (by decide) same).1 (by decide)
    | comma isBlanks' isMember' later' =>
      simp only [List.append_assoc, List.cons_append] at same
      exact absurd (isBlanks.unique isBlanks' (by decide) (by decide) same).1 (by decide)
  | first isMember later inductionHypothesis =>
    cases listing' with
    | closing isBlanks' =>
      obtain ⟨_, _, isBlanks, rfl⟩ := isMember.begins
      simp only [List.append_assoc, List.cons_append, List.nil_append] at same
      exact absurd (isBlanks.unique isBlanks' (by decide) (by decide) same).1 (by decide)
    | first isMember' later' =>
      rw [List.append_assoc, List.append_assoc] at same
      obtain ⟨⟨rfl, rfl⟩, left⟩ := isMember.unique isMember' ((later.derives rfl).endsNumber _)
        ((later'.derives rfl).endsNumber _) same
      obtain ⟨rfl, rfl⟩ := inductionHypothesis later' left
      exact ⟨rfl, rfl⟩
  | comma isBlanks isMember later inductionHypothesis =>
    simp only [List.append_assoc, List.cons_append] at same
    cases listing' with
    | closing isBlanks' =>
      simp only [List.append_assoc, List.cons_append, List.nil_append] at same
      exact absurd (isBlanks.unique isBlanks' (by decide) (by decide) same).1 (by decide)
    | comma isBlanks' isMember' later' =>
      simp only [List.append_assoc, List.cons_append] at same
      obtain ⟨-, inner⟩ := isBlanks.unique isBlanks' (by decide) (by decide) same
      obtain ⟨⟨rfl, rfl⟩, left⟩ := isMember.unique isMember' ((later.derives rfl).endsNumber _)
        ((later'.derives rfl).endsNumber _) inner
      obtain ⟨rfl, rfl⟩ := inductionHypothesis later' left
      exact ⟨rfl, rfl⟩

/-- An object has one list of members. -/
theorem IsObject.unique {members members' : List (String × Bytes)} {text : Bytes}
    (isObject : IsObject members text) (isObject' : IsObject members' text) : members = members' := by
  obtain ⟨front, inner, behind, isFront, listing, -, rfl⟩ := isObject
  obtain ⟨front', inner', behind', isFront', listing', -, same⟩ := isObject'
  obtain ⟨-, left⟩ := isFront.unique isFront' (by decide) (by decide) same
  exact (listing.unique listing' left).1

/-! ## Arrays -/

/-- The elements of an array, the first of them or those behind it, up to the closing bracket. -/
inductive Series : Bool → List Bytes → Bytes → Prop
  | closing {first : Bool} {blanks : Bytes} (isBlanks : Blanks blanks) : Series first [] (blanks ++ [0x5D])
  | first {blanks value more : Bytes} {others : List Bytes} (isBlanks : Blanks blanks)
      (isValue : Derives .value value) (later : Series false others more) :
      Series true (value :: others) (blanks ++ (value ++ more))
  | comma {blanks gap value more : Bytes} {others : List Bytes} (isBlanks : Blanks blanks) (isGap : Blanks gap)
      (isValue : Derives .value value) (later : Series false others more) :
      Series false (value :: others) (blanks ++ 0x2C :: (gap ++ (value ++ more)))

/-- The text is one array of these values. -/
def IsArray (values : List Bytes) (text : Bytes) : Prop :=
  ∃ inner, Series true values inner ∧ text = 0x5B :: inner

/-- Elements behind the first one are what stands behind an entry of an array. -/
theorem Series.derives {values : List Bytes} {text : Bytes} {first : Bool} (series : Series first values text)
    (later : first = false) : Derives (.more .array) text := by
  induction series with
  | closing isBlanks => exact .closing isBlanks
  | first isBlanks isValue _ _ => exact absurd later (by simp)
  | comma isBlanks isGap isValue _ inductionHypothesis =>
    rw [← List.append_assoc]
    exact .comma isBlanks (.element isGap isValue) (inductionHypothesis rfl)

/-- An array is a value. -/
theorem IsArray.derives {values : List Bytes} {text : Bytes} (isArray : IsArray values text) :
    Derives .value text := by
  obtain ⟨inner, series, rfl⟩ := isArray
  cases series with
  | closing isBlanks => exact .empty .array isBlanks
  | first isBlanks isValue later =>
    rw [← List.append_assoc]
    exact .bracketed (.element isBlanks isValue) (later.derives rfl)

/-- No value begins as the end of an array does. -/
theorem Derives.not_closing {blanks blanks' value rest more : Bytes} (isBlanks : Blanks blanks)
    (isBlanks' : Blanks blanks') (isValue : Derives .value value) :
    blanks ++ 0x5D :: rest ≠ blanks' ++ (value ++ more) := by
  intro same
  obtain ⟨b, later, rfl, solid, other⟩ := isValue.begins
  exact other (isBlanks.unique isBlanks' (by decide) solid same).1.symm

/-- The elements are determined. -/
theorem Series.unique {first : Bool} {values values' : List Bytes} {text text' : Bytes}
    (series : Series first values text) (series' : Series first values' text') (same : text = text') :
    values = values' := by
  induction series generalizing values' text' with
  | closing isBlanks =>
    cases series' with
    | closing isBlanks' => rfl
    | first isBlanks' isValue' later' => exact absurd same (isValue'.not_closing isBlanks isBlanks')
    | comma isBlanks' isGap' isValue' later' =>
      exact absurd (isBlanks.unique isBlanks' (by decide) (by decide) same).1 (by decide)
  | first isBlanks isValue later inductionHypothesis =>
    cases series' with
    | closing isBlanks' => exact absurd same.symm (isValue.not_closing isBlanks' isBlanks)
    | first isBlanks' isValue' later' =>
      obtain ⟨rfl, left⟩ := isValue.unique_behind isBlanks isBlanks' isValue'
        (endsNumber_of_more (later.derives rfl)) (endsNumber_of_more (later'.derives rfl)) same
      rw [inductionHypothesis later' left]
  | comma isBlanks isGap isValue later inductionHypothesis =>
    cases series' with
    | closing isBlanks' =>
      exact absurd (isBlanks.unique isBlanks' (by decide) (by decide) same).1 (by decide)
    | comma isBlanks' isGap' isValue' later' =>
      obtain ⟨-, inner⟩ := isBlanks.unique isBlanks' (by decide) (by decide) same
      obtain ⟨rfl, left⟩ := isValue.unique_behind isGap isGap' isValue'
        (endsNumber_of_more (later.derives rfl)) (endsNumber_of_more (later'.derives rfl)) inner
      rw [inductionHypothesis later' left]

/-- An array has one list of elements. -/
theorem IsArray.unique {values values' : List Bytes} {text : Bytes} (isArray : IsArray values text)
    (isArray' : IsArray values' text) : values = values' := by
  obtain ⟨inner, series, rfl⟩ := isArray
  obtain ⟨inner', series', same⟩ := isArray'
  exact series.unique series' (List.cons.inj same).2

end LspProxy.Json
