import LspProxy.Json.Printer
import LspProxy.Json.Value
import LspProxy.Proofs.Text.Utf8

/-!
# Strings in quotes

A kept string is collected octet by octet, and an escape contributes the octets of what it stands for.
So a written text is read back, whatever stands behind it (`readText_quote`): each character of it
contributes its own octets, escaped or not. In the other direction, a string without escapes is spelled
out: what is collected are the octets between the quotes (`readString_spelled`).
-/
namespace LspProxy

namespace Text.Utf8

/-- Texts one behind the other are written one behind the other. -/
theorem encode_append (front back : List Char) : encode (front ++ back) = encode front ++ encode back :=
  List.flatMap_append

/-- The octets of a character beyond ASCII are beyond ASCII themselves. -/
theorem encodeChar_beyond_ascii {c : Char} (beyond : 128 ≤ c.toNat) :
    ∀ b ∈ String.utf8EncodeChar c, 128 ≤ b.toNat := by
  have number : c.val.toNat = c.toNat := rfl
  intro b member
  unfold String.utf8EncodeChar at member
  simp only [number] at member
  split at member
  · omega
  split at member
  · simp only [List.mem_cons, List.not_mem_nil, or_false] at member
    rcases member with rfl | rfl <;> rw [UInt8.toNat_ofNat'] <;> omega
  split at member
  · simp only [List.mem_cons, List.not_mem_nil, or_false] at member
    rcases member with rfl | rfl | rfl <;> rw [UInt8.toNat_ofNat'] <;> omega
  · simp only [List.mem_cons, List.not_mem_nil, or_false] at member
    rcases member with rfl | rfl | rfl | rfl <;> rw [UInt8.toNat_ofNat'] <;> omega

end Text.Utf8

namespace Json

/-! ## Written strings -/

/-- An octet that stands for itself between quotes. -/
def Plain (b : UInt8) : Prop := b ≠ 0x22 ∧ b ≠ 0x5C ∧ ¬ b < 0x20

/-- Octets that stand for themselves are collected as they are. -/
theorem collectString_plain {octets : Bytes} (plain : ∀ b ∈ octets, Plain b)
    (collected rest : Bytes) :
    collectString collected (octets ++ rest) = collectString (octets.reverse ++ collected) rest := by
  induction octets generalizing collected with
  | nil => rfl
  | cons b others inductionHypothesis =>
    obtain ⟨⟨quote, backslash, control⟩, later⟩ := List.forall_mem_cons.mp plain
    have step : collectString collected (b :: (others ++ rest)) =
        collectString (b :: collected) (others ++ rest) := by
      rw [collectString.eq_def]
      simp only [if_neg quote, if_neg backslash, if_neg control]
    rw [List.cons_append, step, inductionHypothesis later]
    simp

/-- A character that is not escaped consists of octets that stand for themselves. -/
theorem encodeChar_plain {c : Char} (quote : c ≠ '"') (backslash : c ≠ '\\')
    (printable : 0x20 ≤ c.toNat) : ∀ b ∈ String.utf8EncodeChar c, Plain b := by
  intro b member
  unfold Plain
  simp only [ne_eq, ← UInt8.toNat_inj, UInt8.lt_iff_toNat_lt, UInt8.reduceToNat]
  rcases Nat.lt_or_ge c.toNat 128 with ascii | beyond
  · rw [← Char.ofNat_toNat c, Text.Utf8.encodeChar_ascii ascii, List.mem_singleton] at member
    have number : b.toNat = c.toNat := by
      rw [member, UInt8.toNat_ofNat']
      omega
    have notQuote : c.toNat ≠ 0x22 := fun same => quote (Char.toNat_inj.mp same)
    have notBackslash : c.toNat ≠ 0x5C := fun same => backslash (Char.toNat_inj.mp same)
    omega
  · have high := Text.Utf8.encodeChar_beyond_ascii beyond b member
    omega

/-- The escapes of control characters that have no letter of their own. -/
theorem control_escape : ∀ n < 32,
    Text.Utf8.encode ['\\', 'u', '0', '0', hexChar (n / 16), hexChar (n % 16)] =
      [0x5C, 0x75, 0x30, 0x30, UInt8.ofNat (hexChar (n / 16)).toNat,
        UInt8.ofNat (hexChar (n % 16)).toNat] ∧
    hex4? 0x30 0x30 (UInt8.ofNat (hexChar (n / 16)).toNat)
      (UInt8.ofNat (hexChar (n % 16)).toNat) = some n := by
  decide +kernel

/-- An escape with a letter contributes the byte that the letter stands for. -/
theorem collectString_letter {letter byte : UInt8} (stands : escaped? letter = some byte)
    (collected rest : Bytes) :
    collectString collected (0x5C :: letter :: rest) = collectString (byte :: collected) rest := by
  have other : letter ≠ 0x75 := by
    rintro rfl
    simp [escaped?] at stands
  rw [collectString.eq_def]
  simp [other, stands]

/-- An escape with a number contributes the octets of the character with that number. -/
theorem collectString_number {h₁ h₂ h₃ h₄ : UInt8} {code : Nat} (digits : hex4? h₁ h₂ h₃ h₄ = some code)
    (low : code < 0xD800) (collected rest : Bytes) :
    collectString collected (0x5C :: 0x75 :: h₁ :: h₂ :: h₃ :: h₄ :: rest) =
      collectString ((encodeCode code).reverse ++ collected) rest := by
  have noSurrogate : ¬ (0xDC00 ≤ code ∧ code ≤ 0xDFFF) := by omega
  rw [collectString.eq_def]
  simp [digits, noSurrogate, low]

/-- A written character contributes its own octets, escaped or not. -/
theorem collectString_escape (c : Char) (collected rest : Bytes) :
    collectString collected (Text.Utf8.encode (escape c) ++ rest) =
      collectString ((String.utf8EncodeChar c).reverse ++ collected) rest := by
  have letter (l : Char) (b byte : UInt8) (written : Text.Utf8.encode ['\\', l] = [0x5C, b])
      (stands : escaped? b = some byte) (same : String.utf8EncodeChar c = [byte]) :
      collectString collected (Text.Utf8.encode ['\\', l] ++ rest) =
        collectString ((String.utf8EncodeChar c).reverse ++ collected) rest := by
    rw [written, same]
    exact collectString_letter stands collected rest
  unfold escape
  split
  · rename_i quote
    exact letter '"' 0x22 0x22 (by decide +kernel) (by decide) (by rw [quote]; decide)
  split
  · rename_i backslash
    exact letter '\\' 0x5C 0x5C (by decide +kernel) (by decide) (by rw [backslash]; decide)
  split
  · rename_i backspace
    exact letter 'b' 0x62 0x08 (by decide +kernel) (by decide) (by rw [backspace]; decide)
  split
  · rename_i formFeed
    exact letter 'f' 0x66 0x0C (by decide +kernel) (by decide) (by rw [formFeed]; decide)
  split
  · rename_i lineFeed
    exact letter 'n' 0x6E 0x0A (by decide +kernel) (by decide) (by rw [lineFeed]; decide)
  split
  · rename_i carriageReturn
    exact letter 'r' 0x72 0x0D (by decide +kernel) (by decide) (by rw [carriageReturn]; decide)
  split
  · rename_i tab
    exact letter 't' 0x74 0x09 (by decide +kernel) (by decide) (by rw [tab]; decide)
  split
  · rename_i control
    obtain ⟨written, digits⟩ := control_escape c.toNat control
    rw [written]
    have read := collectString_number digits (by omega) collected rest
    unfold encodeCode at read
    rwa [Char.ofNat_toNat] at read
  · rename_i quote backslash _ _ _ _ _ printable
    have alone : Text.Utf8.encode [c] = String.utf8EncodeChar c := List.flatMap_singleton _ _
    rw [alone]
    exact collectString_plain (encodeChar_plain quote backslash (by omega)) collected rest

/-- A written text contributes its octets, up to the quote behind it. -/
theorem collectString_written (text : List Char) (collected rest : Bytes) :
    collectString collected (Text.Utf8.encode (text.flatMap escape) ++ 0x22 :: rest) =
      .ok (collected.reverse ++ Text.Utf8.encode text, rest) := by
  induction text generalizing collected with
  | nil =>
    rw [collectString.eq_def]
    simp [Text.Utf8.encode]
  | cons c others inductionHypothesis =>
    have first : Text.Utf8.encode (c :: others) = String.utf8EncodeChar c ++ Text.Utf8.encode others :=
      rfl
    rw [List.flatMap_cons, Text.Utf8.encode_append, List.append_assoc, collectString_escape,
      inductionHypothesis, first]
    simp

/-! ## Kept strings -/

/-- A kept string is one whose octets are those of its text. -/
theorem readString_eq_ok_iff {input rest : Bytes} {text : String} :
    readString input = .ok (text, rest) ↔
      collectString [] input = .ok (Text.Utf8.encode text.toList, rest) := by
  have decoded (octets : Bytes) : Text.Utf8.toString? octets = some text ↔
      octets = Text.Utf8.encode text.toList := by
    rw [← Text.Utf8.decode?_eq_some_iff, Text.Utf8.toString?, Option.map_eq_some_iff]
    constructor
    · rintro ⟨characters, found, rfl⟩
      rw [found, String.toList_ofList]
    · intro found
      exact ⟨text.toList, found, String.ofList_toList⟩
  unfold readString
  cases collectString [] input with
  | error fault => simp [bind, Except.bind]
  | ok found =>
    obtain ⟨octets, behind⟩ := found
    simp only [bind, Except.bind, Except.ok.injEq, Prod.mk.injEq, ← decoded]
    cases Text.Utf8.toString? octets <;> simp

/-- A written text is read back, whatever stands behind it. -/
theorem readText_quote (text : String) (rest : Bytes) :
    readText (Text.Utf8.encode (quote text) ++ rest) = .ok (text, rest) := by
  have opening : Text.Utf8.encode ['"'] = [0x22] := by decide +kernel
  have shape : quote text = ['"'] ++ (text.toList.flatMap escape ++ ['"']) := rfl
  have parts : Text.Utf8.encode (quote text) ++ rest =
      0x22 :: (Text.Utf8.encode (text.toList.flatMap escape) ++ 0x22 :: rest) := by
    rw [shape, Text.Utf8.encode_append, Text.Utf8.encode_append, opening]
    simp
  have quoted : readText (0x22 :: (Text.Utf8.encode (text.toList.flatMap escape) ++ 0x22 :: rest)) =
      readString (Text.Utf8.encode (text.toList.flatMap escape) ++ 0x22 :: rest) := rfl
  rw [parts, quoted, readString_eq_ok_iff, collectString_written]
  rfl

/-! ## Strings that are spelled out -/

/-- Without escapes, what is collected are the octets up to the quote. -/
theorem collectString_spelled {collected input octets rest : Bytes} (spelled : 0x5C ∉ input)
    (read : collectString collected input = .ok (octets, rest)) :
    ∃ body, input = body ++ 0x22 :: rest ∧ octets = collected.reverse ++ body := by
  induction input generalizing collected with
  | nil => exact absurd read (by simp [collectString])
  | cons b others inductionHypothesis =>
    simp only [List.mem_cons, not_or] at spelled
    obtain ⟨first, later⟩ := spelled
    rw [collectString.eq_def] at read
    simp only [if_neg (Ne.symm first)] at read
    split at read
    · rename_i quote
      simp only [Except.ok.injEq, Prod.mk.injEq] at read
      obtain ⟨rfl, rfl⟩ := read
      exact ⟨[], by rw [quote]; rfl, by simp⟩
    split at read
    · exact absurd read (by simp)
    · obtain ⟨body, rfl, rfl⟩ := inductionHypothesis later read
      exact ⟨b :: body, rfl, by simp⟩

/-- A string without escapes is written with the octets of its text. -/
theorem readString_spelled {input rest : Bytes} {text : String} (spelled : 0x5C ∉ input)
    (read : readString input = .ok (text, rest)) :
    input = Text.Utf8.encode text.toList ++ 0x22 :: rest := by
  obtain ⟨body, rfl, octets⟩ := collectString_spelled spelled (readString_eq_ok_iff.mp read)
  rw [octets]
  rfl

end Json

end LspProxy
