import LspProxy.Proofs.Json.Numbers
import LspProxy.Proofs.Json.Passing

/-!
# The lexemes of the grammar

What blanks, strings in quotes, numbers and keywords are, said of texts and not of readers, and that the
readers take exactly these texts: what is taken is such a text whatever follows, and such a text is taken in
front of anything that does not go on with a number. A string is a string of octets here; that they are those
of a text is asked only where the text is named (`Spells`).
-/
namespace LspProxy.Json

/-! ## Blanks -/

/-- Nothing but blanks. -/
def Blanks (text : Bytes) : Prop := ∀ b ∈ text, isSpace b = true

instance (text : Bytes) : Decidable (Blanks text) :=
  inferInstanceAs (Decidable (∀ b ∈ text, isSpace b = true))

theorem blanks_nil : Blanks [] := by
  intro b member
  exact absurd member (by simp)

theorem Blanks.append {front back : Bytes} (blanks : Blanks front) (others : Blanks back) :
    Blanks (front ++ back) := by
  intro b member
  exact (List.mem_append.mp member).elim (blanks b) (others b)

/-- Blanks are skipped. -/
theorem skipSpace_blanks {front : Bytes} (blanks : Blanks front) (rest : Bytes) :
    skipSpace (front ++ rest) = skipSpace rest :=
  List.dropWhile_append_of_pos blanks

/-- What is skipped are blanks. -/
theorem exists_blanks (input : Bytes) : ∃ front, Blanks front ∧ input = front ++ skipSpace input := by
  refine ⟨input.takeWhile isSpace, ?_, List.takeWhile_append_dropWhile.symm⟩
  intro b member
  exact List.all_eq_true.mp List.all_takeWhile b member

/-- A byte that is no blank is found behind the blanks in front of it. -/
theorem Blanks.before {front : Bytes} (blanks : Blanks front) {b : UInt8} (solid : isSpace b = false)
    (rest : Bytes) : skipSpace (front ++ b :: rest) = b :: rest := by
  rw [skipSpace_blanks blanks, skipSpace_of_solid solid]

/-- In front of the first byte that is found are blanks. -/
theorem blanks_of_skipSpace {input rest : Bytes} {b : UInt8} (first : skipSpace input = b :: rest) :
    ∃ front, Blanks front ∧ input = front ++ b :: rest := by
  obtain ⟨front, blanks, whole⟩ := exists_blanks input
  exact ⟨front, blanks, first ▸ whole⟩

/-- Only blanks are left if nothing is left behind them. -/
theorem skipSpace_eq_nil_iff {input : Bytes} : skipSpace input = [] ↔ Blanks input :=
  List.dropWhile_eq_nil_iff

theorem Blanks.colon {gap : Bytes} (isGap : Blanks gap) (rest : Bytes) :
    colon (gap ++ 0x3A :: rest) = .ok rest := by
  unfold Json.colon
  rw [isGap.before (by decide)]
  rfl

/-! ## Strings -/

/-- What may stand between quotes. -/
inductive Quoted : Bytes → Prop
  | nil : Quoted []
  | plain {b : UInt8} {text : Bytes} (plain : Plain b) (others : Quoted text) : Quoted (b :: text)
  | letter {letter byte : UInt8} {text : Bytes} (stands : escaped? letter = some byte)
      (others : Quoted text) : Quoted (0x5C :: letter :: text)
  | number {h₁ h₂ h₃ h₄ : UInt8} {code : Nat} {text : Bytes} (digits : hex4? h₁ h₂ h₃ h₄ = some code)
      (others : Quoted text) : Quoted (0x5C :: 0x75 :: h₁ :: h₂ :: h₃ :: h₄ :: text)

/-- What stands between quotes, with the octets that it stands for: a surrogate counts only as one of a
pair. -/
inductive Spells : Bytes → Bytes → Prop
  | nil : Spells [] []
  | plain {b : UInt8} {text octets : Bytes} (plain : Plain b) (others : Spells text octets) :
      Spells (b :: text) (b :: octets)
  | letter {letter byte : UInt8} {text octets : Bytes} (stands : escaped? letter = some byte)
      (others : Spells text octets) : Spells (0x5C :: letter :: text) (byte :: octets)
  | number {h₁ h₂ h₃ h₄ : UInt8} {code : Nat} {text octets : Bytes}
      (digits : hex4? h₁ h₂ h₃ h₄ = some code) (single : code < 0xD800 ∨ 0xDFFF < code)
      (others : Spells text octets) :
      Spells (0x5C :: 0x75 :: h₁ :: h₂ :: h₃ :: h₄ :: text) (encodeCode code ++ octets)
  | pair {h₁ h₂ h₃ h₄ l₁ l₂ l₃ l₄ : UInt8} {high low : Nat} {text octets : Bytes}
      (first : hex4? h₁ h₂ h₃ h₄ = some high) (isHigh : 0xD800 ≤ high ∧ high ≤ 0xDBFF)
      (second : hex4? l₁ l₂ l₃ l₄ = some low) (isLow : 0xDC00 ≤ low ∧ low ≤ 0xDFFF)
      (others : Spells text octets) :
      Spells (0x5C :: 0x75 :: h₁ :: h₂ :: h₃ :: h₄ :: 0x5C :: 0x75 :: l₁ :: l₂ :: l₃ :: l₄ :: text)
        (encodeCode (0x10000 + (high - 0xD800) * 0x400 + (low - 0xDC00)) ++ octets)

theorem skipString_plain {b : UInt8} (plain : Plain b) (input : Bytes) :
    skipString (b :: input) = skipString input := by
  obtain ⟨quote, escape, control⟩ := plain
  rw [skipString.eq_def]
  simp only [if_neg quote, if_neg escape, if_neg control]

/-- An ignored string is what may stand between quotes, up to the quote behind it. -/
theorem skipString_eq_ok_iff {input rest : Bytes} :
    skipString input = .ok rest ↔ ∃ text, Quoted text ∧ input = text ++ 0x22 :: rest := by
  constructor
  · intro passed
    fun_induction skipString input with
    | case2 input =>
      obtain rfl := Except.ok.inj passed
      exact ⟨[], .nil, rfl⟩
    | case4 h₁ h₂ h₃ h₄ input digits escape inductionHypothesis =>
      obtain ⟨text, quoted, rfl⟩ := inductionHypothesis passed
      obtain ⟨code, digits⟩ := Option.isSome_iff_exists.mp digits
      exact ⟨_, .number digits quoted, rfl⟩
    | case7 letter input unnumbered known escape inductionHypothesis =>
      obtain ⟨text, quoted, rfl⟩ := inductionHypothesis passed
      obtain ⟨byte, stands⟩ := Option.isSome_iff_exists.mp known
      exact ⟨_, .letter stands quoted, rfl⟩
    | case10 b input quote escape control inductionHypothesis =>
      obtain ⟨text, quoted, rfl⟩ := inductionHypothesis passed
      exact ⟨_, .plain ⟨quote, escape, control⟩ quoted, rfl⟩
    | _ => exact absurd passed (by simp)
  · rintro ⟨text, quoted, rfl⟩
    induction quoted with
    | nil =>
      rw [List.nil_append, skipString.eq_def]
      exact if_pos rfl
    | plain plain _ inductionHypothesis => exact (skipString_plain plain _).trans inductionHypothesis
    | letter stands _ inductionHypothesis => exact (skipString_letter stands _).trans inductionHypothesis
    | number digits _ inductionHypothesis => exact (skipString_number digits _).trans inductionHypothesis

theorem Quoted.skip {text : Bytes} (quoted : Quoted text) (rest : Bytes) :
    skipString (text ++ 0x22 :: rest) = .ok rest :=
  skipString_eq_ok_iff.mpr ⟨text, quoted, rfl⟩

/-- An escape with the number of no surrogate contributes the octets of its character. -/
theorem collectString_single {h₁ h₂ h₃ h₄ : UInt8} {code : Nat} (digits : hex4? h₁ h₂ h₃ h₄ = some code)
    (single : code < 0xD800 ∨ 0xDFFF < code) (collected rest : Bytes) :
    collectString collected (0x5C :: 0x75 :: h₁ :: h₂ :: h₃ :: h₄ :: rest) =
      collectString ((encodeCode code).reverse ++ collected) rest := by
  have notLow : ¬ (0xDC00 ≤ code ∧ code ≤ 0xDFFF) := by omega
  have notHigh : code < 0xD800 ∨ 0xDBFF < code := by omega
  rw [collectString.eq_def]
  simp only [digits, if_neg notLow, if_pos notHigh]
  rfl

/-- Two escapes with the numbers of a pair of surrogates contribute the octets of one character. -/
theorem collectString_pair {h₁ h₂ h₃ h₄ l₁ l₂ l₃ l₄ : UInt8} {high low : Nat}
    (first : hex4? h₁ h₂ h₃ h₄ = some high) (isHigh : 0xD800 ≤ high ∧ high ≤ 0xDBFF)
    (second : hex4? l₁ l₂ l₃ l₄ = some low) (isLow : 0xDC00 ≤ low ∧ low ≤ 0xDFFF)
    (collected rest : Bytes) :
    collectString collected
        (0x5C :: 0x75 :: h₁ :: h₂ :: h₃ :: h₄ :: 0x5C :: 0x75 :: l₁ :: l₂ :: l₃ :: l₄ :: rest) =
      collectString
        ((encodeCode (0x10000 + (high - 0xD800) * 0x400 + (low - 0xDC00))).reverse ++ collected) rest := by
  have notLow : ¬ (0xDC00 ≤ high ∧ high ≤ 0xDFFF) := by omega
  have notSingle : ¬ (high < 0xD800 ∨ 0xDBFF < high) := by omega
  rw [collectString.eq_def]
  simp only [first, second, if_neg notLow, if_neg notSingle, if_pos isLow]
  rfl

/-- What is collected newest first is put in front of the rest. -/
theorem collected_append (octets collected spelled : Bytes) :
    (octets.reverse ++ collected).reverse ++ spelled = collected.reverse ++ (octets ++ spelled) := by
  rw [List.reverse_append, List.reverse_reverse, List.append_assoc]

/-- A kept string is what stands between quotes, up to the quote behind it, and contributes the octets that
it stands for. -/
theorem collectString_eq_ok_iff {collected input octets rest : Bytes} :
    collectString collected input = .ok (octets, rest) ↔
      ∃ text spelled, Spells text spelled ∧ input = text ++ 0x22 :: rest ∧
        octets = collected.reverse ++ spelled := by
  constructor
  · intro read
    fun_induction collectString collected input with
    | case2 collected input =>
      obtain ⟨rfl, rfl⟩ := Prod.mk.inj (Except.ok.inj read)
      exact ⟨[], [], .nil, rfl, (List.append_nil _).symm⟩
    | case6 collected h₁ h₂ h₃ h₄ input code digits high single escape inductionHypothesis =>
      obtain ⟨text, spelled, spells, rfl, rfl⟩ := inductionHypothesis read
      exact ⟨_, _, .number digits (by omega) spells, rfl, collected_append _ _ _⟩
    | case11 =>
      rename_i h₁ h₂ h₃ h₄ code first notLow notSingle b u pair l₁ l₂ l₃ l₄ input low second isLow joined _
        inductionHypothesis
      obtain ⟨rfl, rfl⟩ := pair
      obtain ⟨text, spelled, spells, whole, made⟩ := inductionHypothesis read
      have isHigh := (not_or.mp notSingle).imp Nat.le_of_not_lt Nat.le_of_not_lt
      refine ⟨_, _, .pair first isHigh second isLow spells, ?_, made.trans (collected_append _ _ _)⟩
      rw [whole]
      rfl
    | case16 collected letter input unnumbered byte stands escape inductionHypothesis =>
      obtain ⟨text, spelled, spells, rfl, rfl⟩ := inductionHypothesis read
      exact ⟨_, _, .letter stands spells, rfl, collected_append [byte] _ _⟩
    | case19 collected b input quote escape control inductionHypothesis =>
      obtain ⟨text, spelled, spells, rfl, rfl⟩ := inductionHypothesis read
      exact ⟨_, _, .plain ⟨quote, escape, control⟩ spells, rfl, collected_append [b] _ _⟩
    | _ => exact absurd read (by simp)
  · rintro ⟨text, spelled, spells, rfl, rfl⟩
    induction spells generalizing collected with
    | nil =>
      rw [List.nil_append, List.append_nil, collectString.eq_def]
      exact if_pos rfl
    | @plain b text octets plain _ inductionHypothesis =>
      have alone : ∀ c ∈ [b], Plain c := List.forall_mem_singleton.mpr plain
      have one := collectString_plain alone collected
      refine (one _).trans (inductionHypothesis.trans ?_)
      rw [collected_append, List.singleton_append]
    | @letter letter byte text octets stands _ inductionHypothesis =>
      refine (collectString_letter stands collected _).trans (inductionHypothesis.trans ?_)
      rw [List.reverse_cons, List.append_assoc, List.singleton_append]
    | number digits single _ inductionHypothesis =>
      rw [← collected_append, ← inductionHypothesis]
      exact collectString_single digits single collected _
    | pair first isHigh second isLow _ inductionHypothesis =>
      rw [← collected_append, ← inductionHypothesis]
      exact collectString_pair first isHigh second isLow collected _

/-- A text is named by what stands between quotes if its octets are spelled. -/
theorem readString_spells_iff {input rest : Bytes} {text : String} :
    readString input = .ok (text, rest) ↔
      ∃ quoted, Spells quoted (Text.Utf8.encode text.toList) ∧ input = quoted ++ 0x22 :: rest := by
  rw [readString_eq_ok_iff, collectString_eq_ok_iff]
  constructor
  · rintro ⟨quoted, spelled, spells, whole, octets⟩
    obtain rfl : Text.Utf8.encode text.toList = spelled := octets
    exact ⟨quoted, spells, whole⟩
  · rintro ⟨quoted, spells, whole⟩
    exact ⟨quoted, _, spells, whole, rfl⟩

theorem Spells.read {quoted : Bytes} {text : String} (spells : Spells quoted (Text.Utf8.encode text.toList))
    (rest : Bytes) : readString (quoted ++ 0x22 :: rest) = .ok (text, rest) :=
  readString_spells_iff.mpr ⟨quoted, spells, rfl⟩

/-- A text is spelled by all that it is read from. -/
theorem spells_of_readString {quoted : Bytes} {text : String}
    (read : readString (quoted ++ [0x22]) = .ok (text, [])) : Spells quoted (Text.Utf8.encode text.toList) := by
  obtain ⟨spelled, spells, whole⟩ := readString_spells_iff.mp read
  rw [List.append_cancel_right whole]
  exact spells

/-- What spells anything may stand between quotes. -/
theorem Spells.quoted {text octets : Bytes} (spells : Spells text octets) : Quoted text := by
  induction spells with
  | nil => exact .nil
  | plain plain _ inductionHypothesis => exact .plain plain inductionHypothesis
  | letter stands _ inductionHypothesis => exact .letter stands inductionHypothesis
  | number digits _ _ inductionHypothesis => exact .number digits inductionHypothesis
  | pair first _ second _ _ inductionHypothesis => exact .number first (.number second inductionHypothesis)

/-! ## Numbers and keywords -/

/-- At least one digit, and nothing else. -/
def Digits (text : Bytes) : Prop := text ≠ [] ∧ ∀ b ∈ text, isDigit b = true

/-- What may follow the whole part of a number: nothing, or a point with digits. -/
inductive Fraction : Bytes → Prop
  | none : Fraction []
  | point {digits : Bytes} (isDigits : Digits digits) : Fraction (0x2E :: digits)

/-- What may come last in a number: nothing, or a letter, with a sign or without one, and digits. -/
inductive Exponent : Bytes → Prop
  | none : Exponent []
  | power {letter : UInt8} {sign digits : Bytes} (isLetter : letter = 0x65 ∨ letter = 0x45)
      (isSign : sign = [] ∨ sign = [0x2B] ∨ sign = [0x2D]) (isDigits : Digits digits) :
      Exponent (letter :: (sign ++ digits))

/-- A number without its sign. -/
inductive Unsigned : Bytes → Prop
  | parts {whole fraction exponent : Bytes} (isWhole : Canonical whole) (isFraction : Fraction fraction)
      (isExponent : Exponent exponent) : Unsigned (whole ++ (fraction ++ exponent))

/-- A value without parts that are values or texts. -/
inductive Lexeme : Bytes → Prop
  | null : Lexeme (0x6E :: nullRest)
  | true : Lexeme (0x74 :: trueRest)
  | false : Lexeme (0x66 :: falseRest)
  | negative {number : Bytes} (unsigned : Unsigned number) : Lexeme (0x2D :: number)
  | unsigned {number : Bytes} (unsigned : Unsigned number) : Lexeme number

/-- The digits in front of a text, if there are any. -/
theorem digits_takeWhile {input : Bytes} (some : input.takeWhile isDigit ≠ []) :
    Digits (input.takeWhile isDigit) := by
  refine ⟨some, ?_⟩
  intro b member
  exact List.all_eq_true.mp List.all_takeWhile b member

/-- An exponent whose letter has been read is a sign or none, and digits. -/
theorem signed_of_skipExponent {input rest : Bytes} (passed : skipExponent input = .ok rest) :
    ∃ sign digits, (sign = [] ∨ sign = [0x2B] ∨ sign = [0x2D]) ∧ Digits digits ∧
      input = sign ++ (digits ++ rest) := by
  unfold skipExponent at passed
  dsimp only at passed
  split at passed
  · rename_i b behind unsigned
    split at passed
    · rename_i digit
      have some : (b :: behind).takeWhile isDigit ≠ [] := by simp [digit]
      have digits : b :: behind = (b :: behind).takeWhile isDigit ++ rest := by
        rw [← Except.ok.inj passed, ← List.dropWhile_cons_of_pos digit]
        exact List.takeWhile_append_dropWhile.symm
      have isDigits := digits_takeWhile some
      generalize (b :: behind).takeWhile isDigit = taken at digits isDigits
      rw [digits] at unsigned
      cases input with
      | nil => exact ⟨[], taken, .inl rfl, isDigits, unsigned⟩
      | cons sign others =>
        dsimp only at unsigned
        split at unsigned
        · rename_i signed
          refine ⟨[sign], taken, .inr ?_, isDigits, by rw [unsigned]; rfl⟩
          exact signed.imp (congrArg fun b => [b]) (congrArg fun b => [b])
        · exact ⟨[], taken, .inl rfl, isDigits, unsigned⟩
    · exact absurd passed (by simp)
  · exact absurd passed (by simp)

theorem exponent_of_skipOptionalExponent {input rest : Bytes}
    (passed : skipOptionalExponent input = .ok rest) :
    ∃ exponent, Exponent exponent ∧ input = exponent ++ rest := by
  unfold skipOptionalExponent at passed
  split at passed
  · split at passed
    · rename_i isLetter
      obtain ⟨sign, digits, isSign, isDigits, rfl⟩ := signed_of_skipExponent passed
      exact ⟨_, .power isLetter isSign isDigits, by simp⟩
    · exact ⟨[], .none, Except.ok.inj passed⟩
  · exact ⟨[], .none, Except.ok.inj passed⟩

/-- An ignored number is one of the grammar. -/
theorem unsigned_of_skipNumber {input rest : Bytes} (passed : skipNumber input = .ok rest) :
    ∃ number, Unsigned number ∧ input = number ++ rest := by
  have parts : input.takeWhile isDigit ++ input.dropWhile isDigit = input :=
    List.takeWhile_append_dropWhile
  unfold skipNumber at passed
  split at passed
  · exact absurd passed (by simp)
  · rename_i first others digits
    split at passed
    · exact absurd passed (by simp)
    · rename_i idle
      have canonical := canonical_takeWhile digits idle
      rw [← digits] at canonical
      unfold skipFraction at passed
      split at passed
      · rename_i later point
        split at passed
        · exact absurd passed (by simp)
        · rename_i some
          have isFraction := digits_takeWhile (mt List.isEmpty_iff.mpr some)
          have decimals : later.takeWhile isDigit ++ later.dropWhile isDigit = later :=
            List.takeWhile_append_dropWhile
          obtain ⟨exponent, isExponent, behind⟩ := exponent_of_skipOptionalExponent passed
          refine ⟨_, .parts canonical (.point isFraction) isExponent, ?_⟩
          rw [behind] at decimals
          rw [point, ← decimals] at parts
          refine parts.symm.trans ?_
          simp
      · obtain ⟨exponent, isExponent, behind⟩ := exponent_of_skipOptionalExponent passed
        refine ⟨_, .parts canonical .none isExponent, ?_⟩
        rw [behind] at parts
        refine parts.symm.trans ?_
        simp

/-- Digits in the place of an exponent are taken as far as they go. -/
theorem skipExponent_signed {sign digits rest : Bytes} (isSign : sign = [] ∨ sign = [0x2B] ∨ sign = [0x2D])
    (isDigits : Digits digits) (ends : ∀ b ∈ rest.head?, isDigit b = false) :
    skipExponent (sign ++ (digits ++ rest)) = .ok rest := by
  obtain ⟨nonempty, each⟩ := isDigits
  obtain ⟨b, others, rfl⟩ := List.exists_cons_of_ne_nil nonempty
  have digit := each b List.mem_cons_self
  have taken := (span_digits each ends).2
  rw [List.cons_append, List.dropWhile_cons_of_pos digit] at taken
  have noSign : ¬ (b = 0x2B ∨ b = 0x2D) := by
    rintro (rfl | rfl)
    · exact absurd digit (by decide)
    · exact absurd digit (by decide)
  unfold skipExponent
  rcases isSign with rfl | rfl | rfl
  · simp only [List.nil_append, List.cons_append, if_neg noSign, if_pos digit, taken]
  · simp only [List.cons_append, List.nil_append, true_or, if_true, if_pos digit, taken]
  · simp only [List.cons_append, List.nil_append, or_true, if_true, if_pos digit, taken]

theorem skipOptionalExponent_exponent {exponent rest : Bytes} (isExponent : Exponent exponent)
    (ends : EndsNumber rest) : skipOptionalExponent (exponent ++ rest) = .ok rest := by
  cases isExponent with
  | none =>
    cases rest with
    | nil => rfl
    | cons b later =>
      have noLetter : ¬ (b = 0x65 ∨ b = 0x45) := by
        rintro (exponent | exponent)
        · exact (ends b rfl).2.2.1 exponent
        · exact (ends b rfl).2.2.2 exponent
      exact if_neg noLetter
  | power isLetter isSign isDigits =>
    have taken := skipExponent_signed isSign isDigits fun b first => (ends b first).1
    rw [List.cons_append, List.append_assoc]
    exact (if_pos isLetter).trans taken

/-- Neither digits nor decimals go on where an exponent may stand. -/
theorem Exponent.behind {exponent rest : Bytes} (isExponent : Exponent exponent) (ends : EndsNumber rest) :
    ∀ b ∈ (exponent ++ rest).head?, isDigit b = false ∧ b ≠ 0x2E := by
  intro b first
  cases isExponent with
  | none => exact ⟨(ends b first).1, (ends b first).2.1⟩
  | power isLetter isSign isDigits =>
    obtain rfl := Option.some.inj first
    rcases isLetter with rfl | rfl
    · decide
    · decide

/-- Digits do not go on where decimals may stand. -/
theorem Fraction.behind {fraction exponent rest : Bytes} (isFraction : Fraction fraction)
    (isExponent : Exponent exponent) (ends : EndsNumber rest) :
    ∀ b ∈ (fraction ++ (exponent ++ rest)).head?, isDigit b = false := by
  intro b first
  cases isFraction with
  | none => exact (isExponent.behind ends b first).1
  | point isDigits =>
    obtain rfl := Option.some.inj first
    rfl

theorem skipFraction_fraction {fraction exponent rest : Bytes} (isFraction : Fraction fraction)
    (isExponent : Exponent exponent) (ends : EndsNumber rest) :
    skipFraction (fraction ++ (exponent ++ rest)) = .ok rest := by
  have last := skipOptionalExponent_exponent isExponent ends
  have behind := isExponent.behind ends
  unfold skipFraction
  cases isFraction with
  | none =>
    split
    · rename_i later point
      rw [List.nil_append] at point
      exact absurd rfl (behind 0x2E (by simp [point])).2
    · exact last
  | point isDigits =>
    obtain ⟨taken, left⟩ := span_digits isDigits.2 fun b first => (behind b first).1
    simp only [List.cons_append, taken, left, List.isEmpty_iff, if_neg isDigits.1]
    exact last

/-- A number of the grammar is ignored as a whole if what follows does not go on with it. -/
theorem skipNumber_unsigned {number rest : Bytes} (unsigned : Unsigned number) (ends : EndsNumber rest) :
    skipNumber (number ++ rest) = .ok rest := by
  obtain ⟨canonical, isFraction, isExponent⟩ := unsigned
  obtain ⟨taken, left⟩ := span_digits canonical.isDigits (isFraction.behind isExponent ends)
  rw [List.append_assoc, List.append_assoc]
  unfold skipNumber
  rw [taken, left]
  obtain ⟨first, others, rfl⟩ := List.exists_cons_of_ne_nil canonical.nonempty
  exact (if_neg canonical.not_idle).trans (skipFraction_fraction isFraction isExponent ends)

theorem keyword_eq_ok_iff {letters input rest : Bytes} :
    keyword letters input = .ok rest ↔ input = letters ++ rest := by
  constructor
  · intro passed
    fun_induction keyword letters input with
    | case1 input => exact Except.ok.inj passed
    | case3 letters b input inductionHypothesis => rw [inductionHypothesis passed, List.cons_append]
    | _ => exact absurd passed (by simp)
  · rintro rfl
    induction letters with
    | nil => rfl
    | cons letter letters inductionHypothesis => exact (if_pos rfl).trans inductionHypothesis

/-- What is passed in the place of a number or a keyword is one. -/
theorem lexeme_of_skipLexeme {b : UInt8} {later rest : Bytes} (passed : skipLexeme b later = .ok rest) :
    ∃ lexeme, Lexeme lexeme ∧ b :: later = lexeme ++ rest := by
  unfold skipLexeme at passed
  split at passed
  · rename_i letter
    exact ⟨_, .null, by rw [letter, keyword_eq_ok_iff.mp passed]; rfl⟩
  split at passed
  · rename_i letter
    exact ⟨_, .true, by rw [letter, keyword_eq_ok_iff.mp passed]; rfl⟩
  split at passed
  · rename_i letter
    exact ⟨_, .false, by rw [letter, keyword_eq_ok_iff.mp passed]; rfl⟩
  split at passed
  · rename_i sign
    obtain ⟨number, unsigned, rfl⟩ := unsigned_of_skipNumber passed
    exact ⟨_, .negative unsigned, by rw [sign]; rfl⟩
  split at passed
  · obtain ⟨number, unsigned, whole⟩ := unsigned_of_skipNumber passed
    exact ⟨number, .unsigned unsigned, whole⟩
  · exact absurd passed (by simp)

/-- A number or a keyword is passed if what follows does not go on with it. -/
theorem Lexeme.skip {lexeme rest : Bytes} (isLexeme : Lexeme lexeme) (ends : EndsNumber rest) :
    ∃ b later, lexeme ++ rest = b :: later ∧ skipLexeme b later = .ok rest := by
  cases isLexeme with
  | null => exact ⟨_, _, rfl, keyword_eq_ok_iff.mpr rfl⟩
  | true => exact ⟨_, _, rfl, keyword_eq_ok_iff.mpr rfl⟩
  | false => exact ⟨_, _, rfl, keyword_eq_ok_iff.mpr rfl⟩
  | negative unsigned => exact ⟨_, _, rfl, skipNumber_unsigned unsigned ends⟩
  | unsigned unsigned =>
    have passed := skipNumber_unsigned unsigned ends
    obtain ⟨⟨isDigits, nonempty, _⟩, _, _⟩ := unsigned
    rename_i whole _ _ _ _ _
    obtain ⟨b, others, rfl⟩ := List.exists_cons_of_ne_nil nonempty
    refine ⟨b, _, rfl, ?_⟩
    rw [skipLexeme_of_digit (isDigits b List.mem_cons_self)]
    exact passed

/-- A number or a keyword begins with no blank. -/
theorem solid_of_skipLexeme {b : UInt8} {later rest : Bytes} (passed : skipLexeme b later = .ok rest) :
    isSpace b = false := by
  by_contra blank
  simp only [isSpace, Bool.not_eq_false, Bool.or_eq_true, decide_eq_true_eq] at blank
  rcases blank with ((rfl | rfl) | rfl) | rfl <;> exact absurd passed (by simp [skipLexeme, isDigit])

end LspProxy.Json
