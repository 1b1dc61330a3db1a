import LspProxy.Frame.Codec

/-!
# Written headers

The header line of a written frame consists of ASCII characters and announces exactly the length it
was written for, as long as that length is a 64-bit word. The proof follows the reading: the octets
are the characters, the fixed beginning is taken off, a decimal has no blanks to trim and no sign,
and its positional value is the number it was printed from.
-/
namespace LspProxy

namespace Text

/-- The octet of an ASCII character. -/
def octet (c : Char) : UInt8 := UInt8.ofNat c.toNat

/-- The octet of an ASCII character has the number of the character. -/
theorem toNat_octet {c : Char} (ascii : c.toNat < 128) : (octet c).toNat = c.toNat := by
  unfold octet
  rw [UInt8.toNat_ofNat']
  omega

/-- Between characters, an ASCII octet is a character by itself. -/
theorem Utf8.lead_octet {c : Char} (ascii : c.toNat < 128) : Utf8.lead (octet c) = .scalar c := by
  have number := toNat_octet ascii
  have low : octet c < 0x80 := by
    rw [UInt8.lt_iff_toNat_lt, number]
    exact ascii
  unfold Utf8.lead
  rw [if_pos low, number, Char.ofNat_toNat]

/-- Reading ASCII octets puts their characters onto those read before. -/
theorem Utf8.scan_octets (units : List (Option Char)) {text : List Char}
    (ascii : ∀ c ∈ text, c.toNat < 128) :
    Utf8.scan ⟨units, none⟩ (text.map octet) = ⟨(text.map some).reverse ++ units, none⟩ := by
  induction text generalizing units with
  | nil => rfl
  | cons c rest inductionHypothesis =>
    obtain ⟨first, others⟩ := List.forall_mem_cons.mp ascii
    have fed : Utf8.Scan.feed ⟨units, none⟩ (octet c) = ⟨some c :: units, none⟩ := by
      simp only [Utf8.Scan.feed, Utf8.Scan.begin, Utf8.lead_octet first]
    have later := inductionHypothesis (some c :: units) others
    unfold Utf8.scan at later ⊢
    rw [List.map_cons, List.foldl_cons, fed, later]
    simp

/-- ASCII octets are valid and stand for their characters. -/
theorem Utf8.decode?_octets {text : List Char} (ascii : ∀ c ∈ text, c.toNat < 128) :
    Utf8.decode? (text.map octet) = some text := by
  have read : Utf8.units (text.map octet) = text.map some := by
    unfold Utf8.units
    rw [show ({} : Utf8.Scan) = ⟨[], none⟩ from rfl, Utf8.scan_octets [] ascii]
    simp [Utf8.Scan.close]
  unfold Utf8.decode?
  simp [read, Function.comp_def]

/-- A text without blanks is not trimmed. -/
theorem trimBlanks_of_solid {text : List Char} (solid : ∀ c ∈ text, isBlank c = false) :
    trimBlanks text = text := by
  have kept : ∀ part : List Char, (∀ c ∈ part, isBlank c = false) → part.dropWhile isBlank = part := by
    intro part solid
    cases part with
    | nil => rfl
    | cons c rest => simp [solid c List.mem_cons_self]
  unfold trimBlanks
  rw [kept text solid, kept text.reverse (fun c member => solid c (List.mem_reverse.mp member))]
  exact List.reverse_reverse text

/-- A digit lies between `0` and `9`. -/
theorem digit_bounds {c : Char} (digit : c.isDigit) : 48 ≤ c.toNat ∧ c.toNat ≤ 57 :=
  Char.isDigit_iff_toNat.mp digit

/-- A digit is no blank. -/
theorem not_blank_of_digit {c : Char} (digit : c.isDigit) : isBlank c = false := by
  have bounds := digit_bounds digit
  simp only [isBlank, Bool.or_eq_false_iff, Bool.and_eq_false_iff, decide_eq_false_iff_not,
    beq_eq_false_iff_ne]
  omega

namespace Decimal

/-- The positional value is that of the core library. -/
theorem value_eq_ofDigitChars (digits : List Char) : value digits = Nat.ofDigitChars 10 digits 0 := by
  unfold value digit
  rw [Nat.ofDigitChars_eq_foldl]
  simp only [Nat.mul_comm 10]
  rfl

/-- A number below the bound is read back from its decimal form. -/
theorem below?_toDigits {bound n : Nat} (fits : n < bound) :
    below? bound (Nat.toDigits 10 n) = some n := by
  have digits : ∀ c ∈ Nat.toDigits 10 n, c.isDigit :=
    fun c member => Nat.isDigit_of_mem_toDigits (by decide) (by decide) member
  have exact : value (Nat.toDigits 10 n) = n := by
    rw [value_eq_ofDigitChars, Nat.ofDigitChars_ten_toDigits]
  have plain : digitsBelow? bound (Nat.toDigits 10 n) = some n := by
    unfold digitsBelow?
    rw [exact, if_pos ⟨Nat.toDigits_ne_nil, List.all_eq_true.mpr digits, fits⟩]
  unfold below?
  split
  · rename_i rest signed
    have sign : '+'.isDigit = true := digits '+' (by rw [signed]; exact List.mem_cons_self)
    exact absurd sign (by decide)
  · exact plain

end Decimal

end Text

namespace Frame

/-- The characters of the header line for a body of this length. -/
def headerText (length : Nat) : List Char := "Content-Length: ".toList ++ Nat.toDigits 10 length

/-- The header line for a body of this length. -/
def header (length : Nat) : Bytes := opening ++ digits length

theorem header_eq_octets (length : Nat) : header length = (headerText length).map Text.octet := by
  unfold header headerText
  rw [List.map_append]
  rfl

/-- A header line consists of its fixed beginning and digits. -/
theorem mem_headerText {c : Char} {length : Nat} (member : c ∈ headerText length) :
    c ∈ "Content-Length: ".toList ∨ c.isDigit := by
  rcases List.mem_append.mp member with fixed | digit
  · exact Or.inl fixed
  · exact Or.inr (Nat.isDigit_of_mem_toDigits (by decide) (by decide) digit)

/-- A header line is ASCII and has no carriage return. -/
theorem headerText_plain {c : Char} {length : Nat} (member : c ∈ headerText length) :
    c.toNat < 128 ∧ c.toNat ≠ 13 := by
  rcases mem_headerText member with fixed | digit
  · have all : "Content-Length: ".toList.all (fun c => c.toNat < 128 && c.toNat ≠ 13) = true := rfl
    simpa using List.all_eq_true.mp all c fixed
  · have bounds := Text.digit_bounds digit
    omega

/-- The line ending is the first carriage return of a frame. -/
theorem carriageReturn_not_mem_header (length : Nat) : Bytes.carriageReturn ∉ header length := by
  rw [header_eq_octets]
  intro member
  obtain ⟨c, inside, same⟩ := List.mem_map.mp member
  obtain ⟨ascii, other⟩ := headerText_plain inside
  have number := congrArg UInt8.toNat same
  rw [Text.toNat_octet ascii] at number
  exact other number

/-- A fixed beginning is taken off a text that has it. -/
theorem after?_append (beginning text : List Char) : after? beginning (beginning ++ text) = some text := by
  induction beginning with
  | nil => rfl
  | cons c rest inductionHypothesis => simp [after?, inductionHypothesis]

/-- A written header announces the length that it was written for. -/
theorem announced?_header {length : Nat} (fits : length < Text.Decimal.wordBound) :
    announced? (header length) = some length := by
  have ascii : ∀ c ∈ headerText length, c.toNat < 128 := fun c member => (headerText_plain member).1
  have solid : ∀ c ∈ Nat.toDigits 10 length, Text.isBlank c = false := by
    intro c member
    exact Text.not_blank_of_digit (Nat.isDigit_of_mem_toDigits (by decide) (by decide) member)
  have text : Text.Utf8.decode? (header length) = some (headerText length) := by
    rw [header_eq_octets, Text.Utf8.decode?_octets ascii]
  have number : after? "Content-Length: ".toList (headerText length) = some (Nat.toDigits 10 length) :=
    after?_append _ _
  unfold announced?
  rw [text, Option.bind_eq_bind, Option.bind_some, number, Option.bind_some,
    Text.trimBlanks_of_solid solid]
  exact Text.Decimal.below?_toDigits fits

/-- A frame is its header line, two line endings and its body. -/
theorem encode_eq_header (body : Bytes) :
    encode body = header body.length ++ (lineEnd ++ (lineEnd ++ body)) := by
  simp only [encode, header, List.append_assoc]

/-- Every frame opens with the token. -/
theorem token_prefix_encode (body : Bytes) : token <+: encode body := by
  have opened : token <+: opening := by decide
  have first : opening <+: header body.length := List.prefix_append _ _
  rw [encode_eq_header]
  exact (opened.trans first).trans (List.prefix_append _ _)

end Frame

end LspProxy
