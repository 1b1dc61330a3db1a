import LspProxy.Message.Identifier
import LspProxy.Proofs.Json.Outlines
import LspProxy.Proofs.Json.Written

/-!
# Identifiers as they are spelled

An identifier is read exactly where it stands: where the numeral of an integer of 64 bits stands and no
number goes on behind it, or a string (`Identifier.read_eq_ok_iff`). No other value is read as an
identifier, and none is altered to become one.
-/
namespace LspProxy.Message.Identifier

/-- The octets of an integer: its numeral, behind a sign if the integer is below zero. -/
theorem encode_printInteger (value : Int) :
    Text.Utf8.encode (Json.printInteger value) =
      if value < 0 then 0x2D :: Json.numeral value.natAbs else Json.numeral value.natAbs := by
  unfold Json.printInteger
  split <;> rfl

/-- The value between `input` and `rest` is spelled as the identifier is: as the numeral of its integer,
where nothing behind goes on with a number, or as a string of its text. -/
def Stands (input : Bytes) : Identifier → Bytes → Prop
  | number value, rest =>
    inRange value = true ∧
      Json.skipSpace input = Text.Utf8.encode (Json.printInteger value) ++ rest ∧ Json.EndsNumber rest
  | text value, rest => Json.readText input = .ok (value, rest)

/-- The integers of 64 bits, with a sign and without one. -/
theorem inRange_iff {value : Int} :
    inRange value = true ↔ -0x8000000000000000 ≤ value ∧ value < 0x8000000000000000 := by
  unfold inRange
  simp

/-- A kept integer in range is an identifier, and no other number is. -/
theorem bounded_eq_ok_iff {negative : Bool} {input rest : Bytes} {id : Identifier} :
    (Json.readNumber negative input >>= fun
      | (.integer value, rest) =>
        if inRange value then .ok (.number value, rest) else .error Json.Fault.mismatched
      | (.fractional, _) => .error .mismatched) = .ok (id, rest) ↔
      ∃ value, id = number value ∧ inRange value = true ∧
        Json.readNumber negative input = .ok (.integer value, rest) := by
  constructor
  · intro read
    obtain ⟨⟨number, behind⟩, found, made⟩ := Json.bind_eq_ok_iff.mp read
    cases number with
    | integer value =>
      dsimp only at made
      split at made
      · rename_i range
        obtain ⟨rfl, rfl⟩ := Prod.mk.inj (Except.ok.inj made)
        exact ⟨value, rfl, range, found⟩
      · exact absurd made (by simp)
    | fractional => exact absurd made (by simp)
  · rintro ⟨value, rfl, range, found⟩
    exact Json.bind_eq_ok_iff.mpr ⟨_, found, if_pos range⟩

/-- An integer stands behind its sign, or with a digit in front. -/
theorem Stands.number_cases {input rest : Bytes} {value : Int}
    (stands : (number value).Stands input rest) :
    (∃ later, Json.skipSpace input = 0x2D :: later ∧
      Json.readNumber true later = .ok (.integer value, rest)) ∨
    (∃ b later, Json.skipSpace input = b :: later ∧ Json.isDigit b = true ∧
      Json.readNumber false (b :: later) = .ok (.integer value, rest)) := by
  obtain ⟨range, spelled, ends⟩ := stands
  have bounds := inRange_iff.mp range
  have word : Json.maxSignificand = 0xFFFFFFFFFFFFFFFF := rfl
  rw [encode_printInteger] at spelled
  by_cases below : value < 0
  · have kept : Json.Kept true value := ⟨below, by omega⟩
    rw [if_pos below] at spelled
    exact .inl ⟨_, spelled, Json.readNumber_eq_integer_iff.mpr ⟨rfl, ends, kept⟩⟩
  · have kept : Json.Kept false value := ⟨Int.not_lt.mp below, by omega⟩
    obtain ⟨b, others, written, digit⟩ := Json.numeral_eq_cons value.natAbs
    have read := Json.readNumber_eq_integer_iff.mpr ⟨rfl, ends, kept⟩
    rw [if_neg below, written] at spelled
    rw [written] at read
    exact .inr ⟨b, others ++ rest, spelled, digit, read⟩

/-- What is read as an identifier stands as one. -/
theorem stands_of_read {depth : Nat} {input rest : Bytes} {id : Identifier}
    (found : read depth input = .ok (id, rest)) : id.Stands input rest := by
  unfold read at found
  dsimp only at found
  split at found
  · exact absurd found (by simp)
  · rename_i string quoted
    obtain ⟨⟨text, behind⟩, read, made⟩ := Json.bind_eq_ok_iff.mp found
    obtain ⟨rfl, rfl⟩ := Prod.mk.inj (Except.ok.inj made)
    change Json.readText input = _
    unfold Json.readText
    rw [quoted]
    exact read
  · rename_i b later notQuoted begins
    split at found
    · rename_i sign
      obtain ⟨value, rfl, range, number⟩ := bounded_eq_ok_iff.mp found
      obtain ⟨spelled, ends, below, _⟩ := Json.readNumber_eq_integer_iff.mp number
      refine ⟨range, ?_, ends⟩
      rw [encode_printInteger, if_pos below, begins, sign, spelled, List.cons_append]
    split at found
    · obtain ⟨value, rfl, range, number⟩ := bounded_eq_ok_iff.mp found
      obtain ⟨spelled, ends, natural, _⟩ := Json.readNumber_eq_integer_iff.mp number
      refine ⟨range, ?_, ends⟩
      rw [encode_printInteger, if_neg (Int.not_lt.mpr natural), begins, spelled]
    · split at found <;> exact absurd found (by simp)

/-- What stands as an identifier is read as one. -/
theorem Stands.read {input rest : Bytes} {id : Identifier} (stands : id.Stands input rest)
    (depth : Nat) : Identifier.read depth input = .ok (id, rest) := by
  unfold Identifier.read
  cases id with
  | text value =>
    change Json.readText input = _ at stands
    unfold Json.readText at stands
    split at stands
    · rename_i string quoted
      rw [quoted]
      exact Json.bind_eq_ok_iff.mpr ⟨_, stands, rfl⟩
    · exact absurd stands (by simp)
  | number value =>
    have range := stands.1
    rcases stands.number_cases with ⟨later, begins, read⟩ | ⟨b, later, begins, digit, read⟩
    · rw [begins]
      exact bounded_eq_ok_iff.mpr ⟨value, rfl, range, read⟩
    · have unsigned : b ≠ 0x2D := by
        rintro rfl
        exact absurd digit (by decide)
      rw [begins]
      dsimp only
      split
      · rename_i empty
        exact absurd empty (by simp)
      · rename_i quoted
        obtain ⟨rfl, _⟩ := List.cons.inj quoted
        exact absurd digit (by decide)
      · rename_i same
        obtain ⟨rfl, rfl⟩ := List.cons.inj same
        rw [if_neg unsigned, if_pos digit]
        exact bounded_eq_ok_iff.mpr ⟨value, rfl, range, read⟩

/-- An identifier is read exactly where it stands. -/
theorem read_eq_ok_iff {depth : Nat} {input rest : Bytes} {id : Identifier} :
    read depth input = .ok (id, rest) ↔ id.Stands input rest := by
  constructor
  · exact stands_of_read
  · intro stands
    exact stands.read depth

/-- The identifiers that can be written: every text, and the integers of 64 bits. -/
def Writable : Identifier → Prop
  | number value => inRange value = true
  | text _ => True

/-- What has been read can be written. -/
theorem Stands.writable {input rest : Bytes} {id : Identifier} (stands : id.Stands input rest) :
    id.Writable := by
  cases id with
  | number value => exact stands.1
  | text value => trivial

/-- A written identifier begins with a quote, a sign or a digit. -/
theorem encode_print_eq_cons (id : Identifier) :
    ∃ b others, Text.Utf8.encode id.print = b :: others ∧ Json.isSpace b = false ∧ b ≠ 0x6E := by
  cases id with
  | text value => exact ⟨0x22, _, rfl, by decide, by decide⟩
  | number value =>
    obtain ⟨b, others, written, digit⟩ := Json.numeral_eq_cons value.natAbs
    change ∃ b others, Text.Utf8.encode (Json.printInteger value) = b :: others ∧ _
    rw [encode_printInteger]
    split
    · exact ⟨0x2D, _, rfl, by decide, by decide⟩
    · refine ⟨b, others, written, Json.not_space_of_digit digit, ?_⟩
      rintro rfl
      exact absurd digit (by decide)

/-- A written identifier stands where it has been written. -/
theorem readsBack_print {id : Identifier} (writable : id.Writable) (depth : Nat) :
    Json.ReadsBack (read depth) id.print id := by
  intro rest ends
  apply read_eq_ok_iff.mpr
  cases id with
  | text value => exact Json.readText_quote value rest
  | number value =>
    refine ⟨writable, ?_, ends⟩
    obtain ⟨b, others, written, solid, _⟩ := encode_print_eq_cons (number value)
    change Json.skipSpace (Text.Utf8.encode (print (number value)) ++ rest) =
      Text.Utf8.encode (print (number value)) ++ rest
    rw [written, List.cons_append, Json.skipSpace_of_solid solid]

end LspProxy.Message.Identifier
