import LspProxy.Proofs.Frame.Decoding
import LspProxy.Proofs.Frame.Header
import LspProxy.Proofs.Text.Utf8

/-!
# The grammar of the stream

What the decoder takes off the front of a buffer, said without it: either the text before the first
token, or a frame, which is a header line, two line endings and as many bytes as the line announces.
A header line is UTF-8; behind its fixed beginning stand an optional plus sign and decimal digits,
with any Unicode white space around them. Odd lines that fall under this are accepted: leading zeros,
line feeds within the line, spaces of other scripts.

The main statement is that the decoder accepts exactly this, and takes off exactly what it accepts. It
also settles the one subtraction that the decoder makes: the position of a body never lies beyond the
end of the buffer, so in 64-bit words the comparison with the announced length is exact.
-/
namespace LspProxy

/-! ## Blanks around a text -/

namespace Text

/-- A text is what is left of it when it is trimmed, with blanks around. -/
theorem trimBlanks_parts (text : List Char) :
    ∃ before behind, text = before ++ (trimBlanks text ++ behind) ∧
      ∀ c ∈ before ++ behind, isBlank c = true := by
  have front := List.takeWhile_append_dropWhile (p := isBlank) (l := text)
  have back := List.takeWhile_append_dropWhile (p := isBlank) (l := (text.dropWhile isBlank).reverse)
  refine ⟨text.takeWhile isBlank, ((text.dropWhile isBlank).reverse.takeWhile isBlank).reverse, ?_, ?_⟩
  · have turned := congrArg List.reverse back
    rw [List.reverse_append, List.reverse_reverse] at turned
    unfold trimBlanks
    rw [turned, front]
  · intro c member
    rcases List.mem_append.mp member with inFront | inBack
    · exact List.all_eq_true.mp List.all_takeWhile c inFront
    · exact List.all_eq_true.mp List.all_takeWhile c (List.mem_reverse.mp inBack)

/-- Blanks are passed over up to a character that is none. -/
theorem dropWhile_blanks {before rest : List Char} (blank : ∀ c ∈ before, isBlank c = true)
    (stops : ∀ c, rest.head? = some c → isBlank c = false) :
    (before ++ rest).dropWhile isBlank = rest := by
  rw [List.dropWhile_append_of_pos blank]
  cases rest with
  | nil => rfl
  | cons c others => simp [stops c rfl]

/-- Blanks around a text that has none are what is trimmed. -/
theorem trimBlanks_between {before middle behind : List Char} (nonempty : middle ≠ [])
    (solid : ∀ c ∈ middle, isBlank c = false) (blank : ∀ c ∈ before ++ behind, isBlank c = true) :
    trimBlanks (before ++ (middle ++ behind)) = middle := by
  obtain ⟨inFront, inBack⟩ := List.forall_mem_append.mp blank
  have front : (before ++ (middle ++ behind)).dropWhile isBlank = middle ++ behind := by
    apply dropWhile_blanks inFront
    intro c found
    obtain ⟨first, others, rfl⟩ := List.exists_cons_of_ne_nil nonempty
    obtain rfl := Option.some.inj found
    exact solid first List.mem_cons_self
  have back : (behind.reverse ++ middle.reverse).dropWhile isBlank = middle.reverse := by
    apply dropWhile_blanks
    · intro c member
      exact inBack c (List.mem_reverse.mp member)
    · intro c first
      exact solid c (List.mem_reverse.mp (List.mem_of_mem_head? first))
  unfold trimBlanks
  rw [front, List.reverse_append, back, List.reverse_reverse]

/-! ## Numerals -/

namespace Decimal

/-- A number as it may be written: a plus sign or none, and at least one ASCII digit, zeros in front
allowed. -/
def Numeral (text : List Char) (number : Nat) : Prop :=
  ∃ sign digits, text = sign ++ digits ∧ (sign = [] ∨ sign = ['+']) ∧ digits ≠ [] ∧
    (∀ c ∈ digits, '0' ≤ c ∧ c ≤ '9') ∧ Nat.ofDigitChars 10 digits 0 = number

theorem isDigit_iff {c : Char} : c.isDigit = true ↔ '0' ≤ c ∧ c ≤ '9' := by
  simp [Char.isDigit, Char.le_def]

/-- Digits alone are read as the number that they stand for, if it is below the bound. -/
theorem digitsBelow?_eq_some_iff {bound number : Nat} {digits : List Char} :
    digitsBelow? bound digits = some number ↔
      digits ≠ [] ∧ (∀ c ∈ digits, '0' ≤ c ∧ c ≤ '9') ∧
        Nat.ofDigitChars 10 digits 0 = number ∧ number < bound := by
  unfold digitsBelow?
  rw [value_eq_ofDigitChars]
  simp only [List.all_eq_true, isDigit_iff]
  constructor
  · intro read
    split at read
    · rename_i written
      obtain rfl := Option.some.inj read
      exact ⟨written.1, written.2.1, rfl, written.2.2⟩
    · exact absurd read (by simp)
  · rintro ⟨some, digit, rfl, small⟩
    exact if_pos ⟨some, digit, small⟩

/-- Exactly the numerals of numbers below the bound are read. -/
theorem below?_eq_some_iff {bound number : Nat} {text : List Char} :
    below? bound text = some number ↔ Numeral text number ∧ number < bound := by
  constructor
  · intro read
    unfold below? at read
    split at read
    · rename_i digits
      obtain ⟨some, digit, same, small⟩ := digitsBelow?_eq_some_iff.mp read
      exact ⟨⟨['+'], digits, rfl, Or.inr rfl, some, digit, same⟩, small⟩
    · obtain ⟨some, digit, same, small⟩ := digitsBelow?_eq_some_iff.mp read
      exact ⟨⟨[], text, rfl, Or.inl rfl, some, digit, same⟩, small⟩
  · rintro ⟨⟨sign, digits, rfl, signed, some, digit, same⟩, small⟩
    have read := digitsBelow?_eq_some_iff.mpr ⟨some, digit, same, small⟩
    rcases signed with rfl | rfl
    · unfold below?
      split
      · -- A plus sign is no digit.
        rename_i others plus
        rw [List.nil_append] at plus
        have plusDigit := digit '+' (by rw [plus]; exact List.mem_cons_self)
        exact absurd plusDigit (by decide)
      · exact read
    · exact read

/-- No character of a numeral is a blank. -/
theorem Numeral.solid {text : List Char} {number : Nat} (numeral : Numeral text number) :
    text ≠ [] ∧ ∀ c ∈ text, isBlank c = false := by
  obtain ⟨sign, digits, rfl, signed, some, digit, -⟩ := numeral
  refine ⟨List.append_ne_nil_of_right_ne_nil sign some, fun c member => ?_⟩
  rcases List.mem_append.mp member with inSign | inDigits
  · rcases signed with rfl | rfl
    · exact absurd inSign (List.not_mem_nil)
    · obtain rfl := List.mem_singleton.mp inSign
      decide
  · exact not_blank_of_digit (isDigit_iff.mpr (digit c inDigits))

end Decimal

end Text

namespace Frame

/-! ## Header lines -/

/-- A line that announces a body of this length: UTF-8 text that opens with `Content-Length: `, behind
which stands a numeral between blanks. -/
def Announces (line : Bytes) (length : Nat) : Prop :=
  ∃ before numeral behind,
    line = Text.Utf8.encode ("Content-Length: ".toList ++ (before ++ (numeral ++ behind))) ∧
    (∀ c ∈ before ++ behind, Text.isBlank c = true) ∧ Text.Decimal.Numeral numeral length ∧
    length < Text.Decimal.wordBound

/-- A text has the fixed beginning if and only if the beginning can be taken off. -/
theorem after?_eq_some_iff {beginning text rest : List Char} :
    after? beginning text = some rest ↔ text = beginning ++ rest := by
  constructor
  · intro taken
    induction beginning generalizing text with
    | nil => exact Option.some.inj taken
    | cons c others inductionHypothesis =>
      cases text with
      | nil => exact absurd taken (by simp [after?])
      | cons d tail =>
        unfold after? at taken
        split at taken
        · rename_i same
          rw [same, inductionHypothesis taken, List.cons_append]
        · exact absurd taken (by simp)
  · rintro rfl
    exact after?_append beginning rest

/-- A length is read from exactly the lines that announce it. -/
theorem announced?_eq_some_iff {line : Bytes} {length : Nat} :
    announced? line = some length ↔ Announces line length := by
  have steps : announced? line = some length ↔
      ∃ text, Text.Utf8.decode? line = some text ∧ ∃ number,
        after? "Content-Length: ".toList text = some number ∧
          Text.Decimal.below? Text.Decimal.wordBound (Text.trimBlanks number) = some length := by
    simp only [announced?, Option.bind_eq_bind, Option.bind_eq_some_iff]
  rw [steps]
  constructor
  · rintro ⟨text, decoded, number, taken, read⟩
    obtain ⟨numeral, small⟩ := Text.Decimal.below?_eq_some_iff.mp read
    obtain ⟨before, behind, parts, blank⟩ := Text.trimBlanks_parts number
    refine ⟨before, Text.trimBlanks number, behind, ?_, blank, numeral, small⟩
    rw [← parts, ← after?_eq_some_iff.mp taken]
    exact Text.Utf8.decode?_eq_some_iff.mp decoded
  · rintro ⟨before, numeral, behind, rfl, blank, written, small⟩
    refine ⟨_, Text.Utf8.decode?_encode _, _, after?_append _ _, ?_⟩
    rw [Text.trimBlanks_between written.solid.1 written.solid.2 blank]
    exact Text.Decimal.below?_eq_some_iff.mpr ⟨written, small⟩

/-- A line that announces a length opens with the token. -/
theorem Announces.token_prefix {line : Bytes} {length : Nat} (announces : Announces line length) :
    token <+: line := by
  obtain ⟨before, numeral, behind, rfl, -⟩ := announces
  have opened : token <+: opening := by decide
  have first : Text.Utf8.encode "Content-Length: ".toList = opening := by decide +kernel
  refine opened.trans ⟨Text.Utf8.encode (before ++ (numeral ++ behind)), ?_⟩
  rw [← first]
  exact List.flatMap_append.symm

/-! ## Messages -/

/-- What a message at the front of a buffer is, and what stands behind it. -/
inductive Accepted (buffer body rest : Bytes) : Prop where
  /-- Text before the first token. -/
  | unframed (position : Nat) (positive : 0 < position)
      (first : Bytes.FirstAt token buffer position)
      (text : body = buffer.take position) (behind : rest = buffer.drop position)
  /-- A frame: a line that announces the length of the body, and the body behind two line endings. -/
  | framed (line : Bytes) (unbroken : Bytes.carriageReturn ∉ line)
      (announces : Announces line body.length)
      (whole : buffer = line ++ (lineEnd ++ (lineEnd ++ (body ++ rest))))

/-- The decoder accepts exactly the grammar, and takes off exactly what it accepts. -/
theorem decode_eq_some_iff {buffer body rest : Bytes} :
    decode buffer = some (body, rest) ↔ Accepted buffer body rest := by
  constructor
  · intro decoded
    unfold decode at decoded
    split at decoded
    · exact absurd decoded (by simp)
    · obtain ⟨line, unbroken, announcement, whole⟩ := decodeFrame_eq_some_iff.mp decoded
      exact .framed line unbroken (announced?_eq_some_iff.mp announcement) whole
    · rename_i before found
      rw [Option.some.injEq, Prod.mk.injEq] at decoded
      exact .unframed (before + 1) (Nat.succ_pos before) (Bytes.position?_eq_some_iff.mp found)
        decoded.1.symm decoded.2.symm
  · intro accepted
    unfold decode
    cases accepted with
    | unframed position positive first text behind =>
      obtain ⟨before, rfl⟩ : ∃ before, position = before + 1 := ⟨position - 1, by omega⟩
      simp only [Bytes.position?_eq_some_iff.mpr first]
      rw [text, behind]
    | framed line unbroken announces whole =>
      have opens : token <+: buffer := by
        rw [whole]
        exact announces.token_prefix.trans (List.prefix_append _ _)
      have found : Bytes.position? token buffer = some 0 := by
        rw [Bytes.position?_eq_some_iff]
        have size := opens.length_le
        have positive : 0 < token.length := by decide
        exact ⟨by omega, opens, fun earlier before => absurd before (by omega)⟩
      simp only [found]
      exact decodeFrame_eq_some_iff.mpr
        ⟨line, unbroken, announced?_eq_some_iff.mpr announces, whole⟩

/-- What a message at the front of a buffer is has one reading only: the first carriage return ends
the line. -/
theorem line_unique {line other tail rest : Bytes} (unbroken : Bytes.carriageReturn ∉ line)
    (otherUnbroken : Bytes.carriageReturn ∉ other)
    (same : line ++ (lineEnd ++ (lineEnd ++ tail)) = other ++ (lineEnd ++ (lineEnd ++ rest))) :
    line = other ∧ tail = rest := by
  have cut := congrArg (List.takeWhile (· != Bytes.carriageReturn)) same
  have first := takeWhile_line unbroken (Bytes.lineFeed :: (lineEnd ++ tail))
  have second := takeWhile_line otherUnbroken (Bytes.lineFeed :: (lineEnd ++ rest))
  obtain rfl : line = other := first.symm.trans (cut.trans second)
  exact ⟨rfl, List.append_cancel_left (List.append_cancel_left (List.append_cancel_left same))⟩

/-- Behind a header line and two line endings, a body is taken off if all of it is there. -/
theorem decode_header_append {line tail : Bytes} {announced : Nat}
    (unbroken : Bytes.carriageReturn ∉ line) (announces : Announces line announced) :
    decode (line ++ (lineEnd ++ (lineEnd ++ tail))) =
      if tail.length < announced then none else some (tail.take announced, tail.drop announced) := by
  split
  · rename_i short
    cases decoded : decode (line ++ (lineEnd ++ (lineEnd ++ tail))) with
    | none => rfl
    | some message =>
      exfalso
      obtain ⟨body, rest⟩ := message
      cases decode_eq_some_iff.mp decoded with
      | unframed position positive first _ _ =>
        exact first.first 0 positive (announces.token_prefix.trans (List.prefix_append _ _))
      | framed other otherUnbroken otherAnnounces whole =>
        obtain ⟨rfl, rfl⟩ := line_unique unbroken otherUnbroken whole
        have one := announced?_eq_some_iff.mpr announces
        have two := announced?_eq_some_iff.mpr otherAnnounces
        rw [one, Option.some.injEq] at two
        rw [List.length_append] at short
        omega
  · rename_i enough
    have size : (tail.take announced).length = announced := List.length_take_of_le (by omega)
    refine decode_eq_some_iff.mpr (.framed line unbroken (by rwa [size]) ?_)
    rw [List.take_append_drop]

/-! ## Words -/

/-- Whether a body is incomplete, in words of 64 bits: what stands behind the position of the body is
less than the announced length. -/
def incompleteInWords (size bodyAt announced : UInt64) : Bool := size - bodyAt < announced

/-- In a buffer that words can measure, the position of the body is not beyond the end, so the
difference does not wrap around; the words stand for the numbers themselves. -/
theorem incompleteInWords_exact {size bodyAt announced : Nat} (inside : bodyAt ≤ size)
    (sized : size < Text.Decimal.wordBound) (small : announced < Text.Decimal.wordBound) :
    incompleteInWords (UInt64.ofNat size) (UInt64.ofNat bodyAt) (UInt64.ofNat announced) =
      decide (size - bodyAt < announced) := by
  unfold incompleteInWords
  unfold Text.Decimal.wordBound at sized small
  have difference : (UInt64.ofNat size - UInt64.ofNat bodyAt).toNat = size - bodyAt := by
    rw [UInt64.toNat_sub_of_le, UInt64.toNat_ofNat', UInt64.toNat_ofNat']
    · omega
    · rw [UInt64.le_iff_toNat_le, UInt64.toNat_ofNat', UInt64.toNat_ofNat']
      omega
  have declared : (UInt64.ofNat announced).toNat = announced := by
    rw [UInt64.toNat_ofNat']
    omega
  simp only [UInt64.lt_iff_toNat_lt, difference, declared]

/-- The decoder accepts exactly its grammar, and consumes exactly what it accepts: a message comes with
what stands behind it, and where there is none the buffer stays as it is. Whatever length a header
announces, the position of the body is within the buffer, and in 64-bit words the comparison of what
is there with what is announced decides between the two as it should. -/
theorem decode_exact (buffer : Bytes) :
    (∀ body rest, decode buffer = some (body, rest) ↔ Accepted buffer body rest) ∧
    ((∀ body rest, ¬ Accepted buffer body rest) →
      decode buffer = none ∧ drain buffer = ([], buffer)) ∧
    (∀ line tail announced, Bytes.carriageReturn ∉ line → Announces line announced →
      buffer = line ++ (lineEnd ++ (lineEnd ++ tail)) → buffer.length < Text.Decimal.wordBound →
        line.length + 4 ≤ buffer.length ∧
        decode buffer =
          if incompleteInWords (UInt64.ofNat buffer.length) (UInt64.ofNat (line.length + 4))
            (UInt64.ofNat announced) then none
          else some (tail.take announced, tail.drop announced)) := by
  refine ⟨fun body rest => decode_eq_some_iff, ?_, ?_⟩
  · intro outside
    have nothing : decode buffer = none := by
      cases decoded : decode buffer with
      | none => rfl
      | some message => exact absurd (decode_eq_some_iff.mp decoded) (outside _ _)
    exact ⟨nothing, drain_of_none nothing⟩
  · intro line tail announced unbroken announces whole sized
    have size : buffer.length = line.length + 4 + tail.length := by
      rw [whole]
      simp only [List.length_append, lineEnd, List.length_cons, List.length_nil]
      omega
    have inside : line.length + 4 ≤ buffer.length := by omega
    have small : announced < Text.Decimal.wordBound := by
      obtain ⟨-, -, -, -, -, -, small⟩ := announces
      exact small
    have behind : buffer.length - (line.length + 4) = tail.length := by omega
    refine ⟨inside, ?_⟩
    rw [incompleteInWords_exact inside sized small, behind, whole,
      decode_header_append unbroken announces]
    simp only [decide_eq_true_eq]

/-- A line with a sign, zeros in front and blanks of other scripts announces a length like any other. -/
example : decode (Text.Utf8.encode "Content-Length: \u3000+002\u0085\r\n\r\nok".toList) =
    some (Bytes.ascii "ok", []) := by
  decide +kernel

end Frame

end LspProxy
