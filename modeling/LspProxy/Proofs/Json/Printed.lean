import LspProxy.Proofs.Json.Unambiguous
import LspProxy.Proofs.Json.Written

/-!
# What is printed is what is read

A printed text in quotes is a string of that text and of no other, whatever characters are in it. A printed
object has the members that it was printed from, a printed array the elements, in the same order and no others.
Printing leaves no blanks, so each printed form is one derivation of the grammar. That there is no other is
known of all texts.
-/
namespace LspProxy.Json

/-! ## Texts -/

/-- A printed text is a string. -/
theorem isText_quote (text : String) : IsText text (Text.Utf8.encode (quote text)) := by
  have shape : Text.Utf8.encode (quote text) =
      0x22 :: (Text.Utf8.encode (text.toList.flatMap escape) ++ [0x22]) := by
    have opening : Text.Utf8.encode ['"'] = [0x22] := by decide +kernel
    have parts : quote text = ['"'] ++ (text.toList.flatMap escape ++ ['"']) := rfl
    rw [parts, Text.Utf8.encode_append, Text.Utf8.encode_append, opening, List.singleton_append]
  have read := readText_quote text []
  rw [List.append_nil, shape] at read
  change readString _ = _ at read
  exact ⟨_, spells_of_readString read, shape⟩

/-- And a string of no other text. -/
theorem isText_quote_iff {text other : String} : IsText other (Text.Utf8.encode (quote text)) ↔ other = text := by
  constructor
  · exact fun isText => isText.unique (isText_quote text)
  · rintro rfl
    exact isText_quote other

/-! ## Objects -/

section Objects

variable {members : List (String × List Char)}

/-- A member with its value as it is written. -/
def octets (member : String × List Char) : String × Bytes := (member.1, Text.Utf8.encode member.2)

/-- A printed member has its name and its value. -/
theorem namedMember_memberText {member : String × List Char}
    (isValue : Derives .value (Text.Utf8.encode member.2)) :
    NamedMember member.1 (Text.Utf8.encode member.2) (memberText member) := by
  obtain ⟨quoted, spells, shape⟩ := isText_quote member.1
  have written := NamedMember.written blanks_nil spells blanks_nil blanks_nil isValue
  have whole : memberText member = [] ++ 0x22 :: (quoted ++ 0x22 :: ([] ++ 0x3A ::
      ([] ++ Text.Utf8.encode member.2))) := by
    unfold memberText
    rw [shape]
    simp
  rwa [whole]

/-- Printed members are listed, behind the first one. -/
theorem listing_laterText (values : ∀ member ∈ members, Derives .value (Text.Utf8.encode member.2)) :
    Listing false (members.map octets) (laterText members ++ [0x7D]) := by
  induction members with
  | nil => exact .closing blanks_nil
  | cons member others inductionHypothesis =>
    obtain ⟨isValue, later⟩ := List.forall_mem_cons.mp values
    have listing := Listing.comma blanks_nil (namedMember_memberText isValue) (inductionHypothesis later)
    have shape : laterText (member :: others) ++ [0x7D] =
        [] ++ 0x2C :: (memberText member ++ (laterText others ++ [0x7D])) := by
      simp [laterText]
    rw [shape]
    exact listing

/-- And from the first one on. -/
theorem listing_membersText (values : ∀ member ∈ members, Derives .value (Text.Utf8.encode member.2)) :
    Listing true (members.map octets) (membersText members) := by
  cases members with
  | nil => exact .closing blanks_nil
  | cons member others =>
    obtain ⟨isValue, later⟩ := List.forall_mem_cons.mp values
    exact .first (namedMember_memberText isValue) (listing_laterText later)

/-- A printed object is a value. -/
theorem derives_printObject (values : ∀ member ∈ members, Derives .value (Text.Utf8.encode member.2)) :
    Derives .value (Text.Utf8.encode (printObject members)) := by
  rw [encode_printObject]
  exact (listing_membersText values).object

/-- A printed object has the members that it was printed from. -/
theorem isObject_printObject_iff (values : ∀ member ∈ members, Derives .value (Text.Utf8.encode member.2))
    {others : List (String × Bytes)} :
    IsObject others (Text.Utf8.encode (printObject members)) ↔ others = members.map octets := by
  have printed : IsObject (members.map octets) (Text.Utf8.encode (printObject members)) := by
    refine ⟨[], membersText members, [], blanks_nil, listing_membersText values, blanks_nil, ?_⟩
    rw [encode_printObject, List.append_nil, List.nil_append]
  constructor
  · exact fun isObject => isObject.unique printed
  · rintro rfl
    exact printed

end Objects

/-! ## Arrays -/

section Arrays

variable {elements : List (List Char)}

/-- The octets of the elements behind the first one. -/
def elementsText (elements : List (List Char)) : Bytes :=
  elements.flatMap fun element => 0x2C :: Text.Utf8.encode element

/-- Each element but the first is written behind a comma. -/
theorem encode_elements (element : List Char) (elements : List (List Char)) :
    Text.Utf8.encode (commaSeparated (element :: elements)) =
      Text.Utf8.encode element ++ elementsText elements := by
  induction elements generalizing element with
  | nil => exact (List.append_nil _).symm
  | cons next others inductionHypothesis =>
    have comma (text : List Char) : Text.Utf8.encode (',' :: text) = 0x2C :: Text.Utf8.encode text := rfl
    have split : commaSeparated (element :: next :: others) =
        element ++ ',' :: commaSeparated (next :: others) := rfl
    rw [split, Text.Utf8.encode_append, comma, inductionHypothesis]
    rfl

/-- Printed elements stand in a row, behind the first one. -/
theorem series_elementsText (values : ∀ element ∈ elements, Derives .value (Text.Utf8.encode element)) :
    Series false (elements.map Text.Utf8.encode) (elementsText elements ++ [0x5D]) := by
  induction elements with
  | nil => exact .closing blanks_nil
  | cons element others inductionHypothesis =>
    obtain ⟨isValue, later⟩ := List.forall_mem_cons.mp values
    have series := Series.comma blanks_nil blanks_nil isValue (inductionHypothesis later)
    have shape : elementsText (element :: others) ++ [0x5D] =
        [] ++ 0x2C :: ([] ++ (Text.Utf8.encode element ++ (elementsText others ++ [0x5D]))) := by
      simp [elementsText]
    rw [shape]
    exact series

/-- A printed array has the elements that it was printed from. -/
theorem isArray_printArray (values : ∀ element ∈ elements, Derives .value (Text.Utf8.encode element)) :
    IsArray (elements.map Text.Utf8.encode) (Text.Utf8.encode (printArray elements)) := by
  have closing : Text.Utf8.encode [']'] = [0x5D] := by decide +kernel
  have whole : Text.Utf8.encode (printArray elements) =
      0x5B :: (Text.Utf8.encode (commaSeparated elements) ++ [0x5D]) := by
    rw [← closing, ← Text.Utf8.encode_append]
    rfl
  refine ⟨_, ?_, whole⟩
  cases elements with
  | nil => exact .closing blanks_nil
  | cons element others =>
    obtain ⟨isValue, later⟩ := List.forall_mem_cons.mp values
    rw [encode_elements, List.append_assoc]
    exact .first blanks_nil isValue (series_elementsText later)

/-- And no others. -/
theorem isArray_printArray_iff (values : ∀ element ∈ elements, Derives .value (Text.Utf8.encode element))
    {others : List Bytes} :
    IsArray others (Text.Utf8.encode (printArray elements)) ↔ others = elements.map Text.Utf8.encode := by
  constructor
  · exact fun isArray => isArray.unique (isArray_printArray values)
  · rintro rfl
    exact isArray_printArray values

end Arrays

end LspProxy.Json
