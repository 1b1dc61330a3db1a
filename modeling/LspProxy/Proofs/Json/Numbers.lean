import LspProxy.Json.Printer
import LspProxy.Json.Value
import LspProxy.Proofs.Json.Strings

/-!
# Numerals

A natural number is written with digits of which the first is no zero, except for zero itself, and it is
the only number written with them (`eq_numeral_iff`). A kept integer is read exactly where its numeral
stands with nothing behind it that would go on with a number (`readNumber_eq_integer_iff`): a point or an
exponent, a zero in front, the sign of a negative zero and a number too large for its bits all lead to
something else.

The digits are taken from left to right, so what has been read of them counts as a number to be
continued; both facts are proved for any such beginning.
-/
namespace LspProxy.Json

/-- The octets of a natural number in decimal. -/
def numeral (n : Nat) : Bytes := Text.Utf8.encode (printNatural n)

/-- Nothing that would go on with a number. -/
def EndsNumber (rest : Bytes) : Prop :=
  ∀ b ∈ rest.head?, isDigit b = false ∧ b ≠ 0x2E ∧ b ≠ 0x65 ∧ b ≠ 0x45

/-- Nothing goes on with a number where nothing follows. -/
theorem endsNumber_nil : EndsNumber [] := by
  intro b first
  exact absurd first (by simp)

/-! ## Digits -/

/-- A number continued by a digit. -/
def continued (n : Nat) (b : UInt8) : Nat := n * 10 + digit b

/-- The number that digits stand for. -/
def total (digits : Bytes) : Nat := digits.foldl continued 0

/-- Digits without an idle zero in front. -/
structure Canonical (digits : Bytes) : Prop where
  isDigits : ∀ b ∈ digits, isDigit b = true
  nonempty : digits ≠ []
  leading : ∀ others, digits = 0x30 :: others → others = []

theorem isDigit_iff {b : UInt8} : isDigit b = true ↔ 0x30 ≤ b.toNat ∧ b.toNat ≤ 0x39 := by
  unfold isDigit
  simp [UInt8.le_iff_toNat_le]

/-- The numerals of one digit. -/
theorem numeral_of_lt_ten : ∀ n < 10, numeral n = [UInt8.ofNat (n + 0x30)] := by decide +kernel

theorem numeral_digit {b : UInt8} (isDigit : isDigit b = true) : numeral (digit b) = [b] := by
  have bounds := isDigit_iff.mp isDigit
  have number : digit b + 0x30 = b.toNat := by
    unfold digit
    omega
  rw [numeral_of_lt_ten (digit b) (by omega), number, UInt8.ofNat_toNat]

/-- One more digit is written behind the others. -/
theorem numeral_continued {n : Nat} (positive : 0 < n) {b : UInt8} (isDigit : isDigit b = true) :
    numeral (continued n b) = numeral n ++ [b] := by
  have bound : digit b < 10 := by
    have bounds := isDigit_iff.mp isDigit
    unfold digit
    omega
  have digits : Nat.toDigits 10 (continued n b) = Nat.toDigits 10 n ++ Nat.toDigits 10 (digit b) := by
    unfold continued
    rw [Nat.toDigits_append_toDigits (by decide) positive bound, Nat.mul_comm]
  rw [← numeral_digit isDigit]
  unfold numeral printNatural
  rw [digits, Text.Utf8.encode_append]

/-- Digits behind a numeral continue its number. -/
theorem numeral_append {digits : Bytes} (isDigits : ∀ b ∈ digits, isDigit b = true) {n : Nat}
    (positive : 0 < n) : numeral n ++ digits = numeral (digits.foldl continued n) := by
  induction digits generalizing n with
  | nil => exact List.append_nil _
  | cons b others inductionHypothesis =>
    obtain ⟨first, later⟩ := List.forall_mem_cons.mp isDigits
    have next : 0 < continued n b := by
      unfold continued
      omega
    calc numeral n ++ b :: others
        = numeral n ++ [b] ++ others := by simp
      _ = numeral (continued n b) ++ others := by rw [numeral_continued positive first]
      _ = numeral ((b :: others).foldl continued n) := inductionHypothesis later next

/-- Digits without an idle zero are the numeral of what they stand for. -/
theorem Canonical.numeral_total {digits : Bytes} (canonical : Canonical digits) :
    numeral (total digits) = digits := by
  obtain ⟨isDigits, nonempty, leading⟩ := canonical
  cases digits with
  | nil => exact absurd rfl nonempty
  | cons first others =>
    obtain ⟨isDigit, later⟩ := List.forall_mem_cons.mp isDigits
    by_cases zero : first = 0x30
    · subst zero
      rw [leading others rfl]
      decide +kernel
    · have positive : 0 < digit first := by
        have bounds := isDigit_iff.mp isDigit
        have other : first.toNat ≠ 0x30 := fun same => zero (UInt8.toNat_inj.mp same)
        unfold digit
        omega
      have start : total (first :: others) = others.foldl continued (digit first) := by
        unfold total continued
        simp
      rw [start, ← numeral_append later positive, numeral_digit isDigit]
      rfl

/-- A numeral is made of digits without an idle zero, and stands for its number. -/
theorem numeral_canonical (n : Nat) : Canonical (numeral n) ∧ total (numeral n) = n := by
  induction n using Nat.strongRecOn with
  | ind n inductionHypothesis =>
    by_cases small : n < 10
    · have number : (UInt8.ofNat (n + 0x30)).toNat = n + 0x30 := by
        rw [UInt8.toNat_ofNat']
        omega
      rw [numeral_of_lt_ten n small]
      refine ⟨⟨?_, by simp, ?_⟩, ?_⟩
      · intro b member
        rw [List.mem_singleton.mp member, isDigit_iff, number]
        omega
      · intro others same
        exact (List.cons.inj same).2.symm
      · unfold total continued digit
        simp only [List.foldl_cons, List.foldl_nil, number]
        omega
    · obtain ⟨canonical, stands⟩ := inductionHypothesis (n / 10) (by omega)
      have last : (UInt8.ofNat (n % 10 + 0x30)).toNat = n % 10 + 0x30 := by
        rw [UInt8.toNat_ofNat']
        omega
      have isDigit : isDigit (UInt8.ofNat (n % 10 + 0x30)) = true := by
        rw [isDigit_iff, last]
        omega
      have whole : continued (n / 10) (UInt8.ofNat (n % 10 + 0x30)) = n := by
        unfold continued digit
        omega
      have written : numeral n = numeral (n / 10) ++ [UInt8.ofNat (n % 10 + 0x30)] := by
        rw [← numeral_continued (by omega) isDigit, whole]
      rw [written]
      refine ⟨⟨?_, by simp, ?_⟩, ?_⟩
      · intro b member
        rcases List.mem_append.mp member with front | back
        · exact canonical.isDigits b front
        · rw [List.mem_singleton.mp back]
          exact isDigit
      · intro others same
        -- a zero in front would be all of the front, which then stands for zero
        rcases List.append_eq_cons_iff.mp same with ⟨empty, _⟩ | ⟨front, begins, _⟩
        · exact absurd empty canonical.nonempty
        · rw [begins, canonical.leading front begins] at stands
          have zero : total [0x30] = 0 := by decide
          omega
      · unfold total at stands ⊢
        rw [List.foldl_append, stands]
        exact whole

/-- A number has one numeral, and it is the only number written so. -/
theorem eq_numeral_iff {digits : Bytes} {n : Nat} :
    digits = numeral n ↔ Canonical digits ∧ total digits = n := by
  constructor
  · rintro rfl
    exact numeral_canonical n
  · rintro ⟨canonical, rfl⟩
    exact canonical.numeral_total.symm

/-- A numeral begins with a digit. -/
theorem numeral_eq_cons (n : Nat) : ∃ b others, numeral n = b :: others ∧ isDigit b = true := by
  obtain ⟨isDigits, nonempty, _⟩ := (numeral_canonical n).1
  obtain ⟨b, others, written⟩ := List.exists_cons_of_ne_nil nonempty
  exact ⟨b, others, written, isDigits b (written ▸ List.mem_cons_self)⟩

/-! ## Significands -/

/-- Once a digit did not fit, none is kept. -/
theorem foldl_integral_full {scaled : Scaled} (full : scaled.full = true) (digits : Bytes) :
    (digits.foldl Scaled.integral scaled).full = true := by
  induction digits generalizing scaled with
  | nil => exact full
  | cons b others inductionHypothesis =>
    apply inductionHypothesis
    unfold Scaled.integral
    simp [full]

/-- Digits only make a number larger. -/
theorem le_foldl_continued (digits : Bytes) (n : Nat) : n ≤ digits.foldl continued n := by
  induction digits generalizing n with
  | nil => exact Nat.le_refl n
  | cons b others inductionHypothesis =>
    have next : n ≤ continued n b := by
      unfold continued
      omega
    exact Nat.le_trans next (inductionHypothesis _)

/-- Digits are kept exactly as long as their number fits. -/
theorem foldl_integral (digits : Bytes) {n : Nat} (fits : n ≤ maxSignificand) :
    let scaled := digits.foldl Scaled.integral ⟨n, 0, false⟩
    let whole := digits.foldl continued n
    (whole ≤ maxSignificand ∧ scaled = ⟨whole, 0, false⟩) ∨
      (maxSignificand < whole ∧ scaled.full = true) := by
  induction digits generalizing n with
  | nil => exact .inl ⟨fits, rfl⟩
  | cons b others inductionHypothesis =>
    by_cases larger : maxSignificand < continued n b
    · have step : Scaled.integral ⟨n, 0, false⟩ b = ⟨n, 1, true⟩ := by
        unfold Scaled.integral
        unfold continued at larger
        simp [larger]
      refine .inr ⟨Nat.lt_of_lt_of_le larger (le_foldl_continued others _), ?_⟩
      rw [List.foldl_cons, step]
      exact foldl_integral_full rfl others
    · have step : Scaled.integral ⟨n, 0, false⟩ b = ⟨continued n b, 0, false⟩ := by
        unfold Scaled.integral
        unfold continued at larger ⊢
        simp [larger]
      rw [List.foldl_cons, step]
      exact inductionHypothesis (Nat.le_of_not_lt larger)

/-! ## Kept integers -/

/-- A number with a point or an exponent is no integer, whatever its value. -/
theorem readExponent_ne_integer {scaled : Scaled} {input rest : Bytes} {value : Int} :
    readExponent scaled input ≠ .ok (.integer value, rest) := by
  unfold readExponent Scaled.bounded
  dsimp only
  repeat' split
  all_goals simp

theorem readOptionalExponent_ne_integer {scaled : Scaled} {input rest : Bytes} {value : Int} :
    readOptionalExponent scaled input ≠ .ok (.integer value, rest) := by
  unfold readOptionalExponent
  split
  · split
    · exact readExponent_ne_integer
    · unfold Scaled.bounded
      split <;> simp
  · unfold Scaled.bounded
    split <;> simp

/-- The integers that are kept: with a sign those below zero, without one the others, in 64 bits. -/
def Kept (negative : Bool) (value : Int) : Prop :=
  if negative then value < 0 ∧ value.natAbs ≤ 0x8000000000000000
  else 0 ≤ value ∧ value.natAbs ≤ maxSignificand

/-- What becomes of digits that nothing continues. -/
theorem integer_eq_ok_iff {digits rest behind : Bytes} {negative : Bool} {value : Int} :
    (digits.foldl Scaled.integral {}).integer negative rest = .ok (.integer value, behind) ↔
      rest = behind ∧ total digits = value.natAbs ∧ Kept negative value := by
  have word : maxSignificand = 0xFFFFFFFFFFFFFFFF := rfl
  have cases : (total digits ≤ maxSignificand ∧
        digits.foldl Scaled.integral {} = ⟨total digits, 0, false⟩) ∨
      (maxSignificand < total digits ∧ (digits.foldl Scaled.integral {}).full = true) :=
    foldl_integral digits (Nat.zero_le maxSignificand)
  rcases cases with ⟨fits, kept⟩ | ⟨larger, full⟩
  · rw [kept]
    unfold Scaled.integer Kept
    cases negative with
    | true =>
      by_cases inside : 0 < total digits ∧ total digits ≤ 0x8000000000000000
      · simp only [Bool.false_eq_true, if_false, if_true, if_pos inside, Except.ok.injEq,
          Prod.mk.injEq, Number.integer.injEq]
        constructor
        · rintro ⟨rfl, rfl⟩
          exact ⟨rfl, by omega, by omega, by omega⟩
        · rintro ⟨rfl, same, below, bound⟩
          exact ⟨by omega, rfl⟩
      · simp only [Bool.false_eq_true, if_false, if_true, if_neg inside]
        constructor
        · intro found
          exact absurd found (by simp)
        · rintro ⟨-, same, below, bound⟩
          omega
    | false =>
      simp only [Bool.false_eq_true, if_false, Except.ok.injEq, Prod.mk.injEq, Number.integer.injEq]
      constructor
      · rintro ⟨rfl, rfl⟩
        exact ⟨rfl, by omega, by omega, by omega⟩
      · rintro ⟨rfl, same, below, bound⟩
        exact ⟨by omega, rfl⟩
  · unfold Scaled.integer Scaled.bounded Kept
    rw [if_pos full]
    constructor
    · intro found
      split at found <;> exact absurd found (by simp)
    · rintro ⟨-, same, kept⟩
      split at kept <;> omega

/-- The digits in front of a text that goes on with none. -/
theorem span_digits {digits rest : Bytes} (isDigits : ∀ b ∈ digits, isDigit b = true)
    (ends : ∀ b ∈ rest.head?, isDigit b = false) :
    (digits ++ rest).takeWhile isDigit = digits ∧ (digits ++ rest).dropWhile isDigit = rest := by
  have none : rest.takeWhile isDigit = [] ∧ rest.dropWhile isDigit = rest := by
    cases rest with
    | nil => exact ⟨rfl, rfl⟩
    | cons b others =>
      have other := ends b rfl
      simp [other]
  rw [List.takeWhile_append_of_pos isDigits, List.dropWhile_append_of_pos isDigits, none.1, none.2]
  exact ⟨List.append_nil digits, rfl⟩

/-- Behind the digits in front of a text stands no further digit. -/
theorem head_dropWhile_isDigit (input : Bytes) :
    ∀ b ∈ (input.dropWhile isDigit).head?, isDigit b = false := by
  intro b first
  simpa [Option.mem_def.mp first] using List.head?_dropWhile_not isDigit input

/-- The digits in front of a text have no idle zero unless one stands before others. -/
theorem canonical_takeWhile {input others : Bytes} {first : UInt8}
    (digits : input.takeWhile isDigit = first :: others) (idle : ¬ (first = 0x30 ∧ others ≠ [])) :
    Canonical (first :: others) := by
  refine ⟨?_, by simp, ?_⟩
  · intro b member
    rw [← digits] at member
    exact List.all_eq_true.mp List.all_takeWhile b member
  · intro others' same
    obtain ⟨rfl, rfl⟩ := List.cons.inj same
    exact Decidable.byContradiction fun more => idle ⟨rfl, more⟩

theorem Canonical.not_idle {first : UInt8} {others : Bytes} (canonical : Canonical (first :: others)) :
    ¬ (first = 0x30 ∧ others ≠ []) := by
  rintro ⟨rfl, more⟩
  exact more (canonical.leading others rfl)

/-- A kept integer is read exactly where its numeral stands and no number goes on behind it. The sign
has been read; a negative integer needs it, and no other may have it. -/
theorem readNumber_eq_integer_iff {negative : Bool} {input rest : Bytes} {value : Int} :
    readNumber negative input = .ok (.integer value, rest) ↔
      input = numeral value.natAbs ++ rest ∧ EndsNumber rest ∧ Kept negative value := by
  constructor
  · intro read
    have whole : input.takeWhile isDigit ++ input.dropWhile isDigit = input :=
      List.takeWhile_append_dropWhile
    have noDigit := head_dropWhile_isDigit input
    unfold readNumber at read
    split at read
    · split at read <;> exact absurd read (by simp)
    · rename_i first others digits
      split at read
      · exact absurd read (by simp)
      · rename_i idle
        have canonical := canonical_takeWhile digits idle
        dsimp only at read
        split at read
        · split at read
          · split at read <;> exact absurd read (by simp)
          · exact absurd read readOptionalExponent_ne_integer
        · exact absurd read readExponent_ne_integer
        · exact absurd read readExponent_ne_integer
        · rename_i behind noPoint noExponent noCapital
          obtain ⟨same, stands, kept⟩ := integer_eq_ok_iff.mp read
          subst same
          have numeral : first :: others = numeral value.natAbs :=
            eq_numeral_iff.mpr ⟨canonical, stands⟩
          refine ⟨?_, ?_, kept⟩
          · rw [← numeral, ← digits]
            exact whole.symm
          · intro b first
            obtain ⟨later, begins⟩ := List.head?_eq_some_iff.mp (Option.mem_def.mp first)
            exact ⟨noDigit b first, fun point => noPoint later (point ▸ begins),
              fun exponent => noExponent later (exponent ▸ begins),
              fun capital => noCapital later (capital ▸ begins)⟩
  · rintro ⟨rfl, ends, kept⟩
    obtain ⟨canonical, stands⟩ := numeral_canonical value.natAbs
    obtain ⟨digits, behind⟩ := span_digits canonical.isDigits fun b first => (ends b first).1
    have read : ((numeral value.natAbs).foldl Scaled.integral {}).integer negative rest =
        .ok (.integer value, rest) := integer_eq_ok_iff.mpr ⟨rfl, stands, kept⟩
    unfold readNumber
    rw [digits, behind]
    cases written : numeral value.natAbs with
    | nil => exact absurd written canonical.nonempty
    | cons first others =>
      rw [written] at read canonical
      dsimp only
      rw [if_neg canonical.not_idle]
      split
      · exact absurd rfl (ends 0x2E rfl).2.1
      · exact absurd rfl (ends 0x65 rfl).2.2.1
      · exact absurd rfl (ends 0x45 rfl).2.2.2
      · exact read

/-! ## Numbers in the place of a value -/

/-- A digit is no blank. -/
theorem not_space_of_digit {b : UInt8} (digit : isDigit b = true) : isSpace b = false := by
  have bounds := isDigit_iff.mp digit
  simp only [isSpace, Bool.or_eq_false_iff, decide_eq_false_iff_not, ← UInt8.toNat_inj,
    UInt8.reduceToNat]
  omega

/-- No blanks stand in front of a byte that is none. -/
theorem skipSpace_of_solid {b : UInt8} (solid : isSpace b = false) (rest : Bytes) :
    skipSpace (b :: rest) = b :: rest := by
  unfold skipSpace
  simp [solid]

/-- A written natural number below the bound is read back. -/
theorem readNatural_numeral {bound n : Nat} (below : n < bound) (word : n ≤ maxSignificand)
    {rest : Bytes} (ends : EndsNumber rest) :
    readNatural bound (numeral n ++ rest) = .ok (n, rest) := by
  have read : readNumber false (numeral n ++ rest) = .ok (.integer n, rest) := by
    apply readNumber_eq_integer_iff.mpr
    exact ⟨rfl, ends, Int.natCast_nonneg n, word⟩
  obtain ⟨b, others, written, digit⟩ := numeral_eq_cons n
  have unsigned : b ≠ 0x2D := by
    rintro rfl
    exact absurd digit (by decide)
  rw [written, List.cons_append] at read ⊢
  unfold readNatural
  rw [skipSpace_of_solid (not_space_of_digit digit)]
  simp [unsigned, digit, read, bind, Except.bind, below]

end LspProxy.Json
