import LspProxy.Proofs.Json.Readers

/-!
# Outlines of kept lexemes

What is kept is checked in full, what is ignored in outline only. The outline follows the full check byte
by byte, so a kept string or number ends for both at the same place.
-/
namespace LspProxy.Json

/-! ## Strings -/

/-- An escape with a number is passed whatever it stands for. -/
theorem skipString_number {h₁ h₂ h₃ h₄ : UInt8} {code : Nat} (digits : hex4? h₁ h₂ h₃ h₄ = some code)
    (input : Bytes) : skipString (0x5C :: 0x75 :: h₁ :: h₂ :: h₃ :: h₄ :: input) = skipString input := by
  rw [skipString.eq_def]
  simp [digits]

/-- An escape with a letter is passed whatever it stands for. -/
theorem skipString_letter {letter byte : UInt8} (stands : escaped? letter = some byte) (input : Bytes) :
    skipString (0x5C :: letter :: input) = skipString input := by
  have other : letter ≠ 0x75 := by
    rintro rfl
    simp [escaped?] at stands
  rw [skipString.eq_def]
  simp [other, stands]

/-- A kept string is outlined correctly. A pair of surrogates is passed as two escapes. -/
theorem skipString_of_collectString {collected input octets rest : Bytes}
    (read : collectString collected input = .ok (octets, rest)) : skipString input = .ok rest := by
  fun_induction collectString collected input with
  | case2 collected input =>
    simp only [Except.ok.injEq, Prod.mk.injEq] at read
    rw [skipString.eq_def, ← read.2]
    exact if_pos rfl
  | case6 collected h₁ h₂ h₃ h₄ input code digits high single escape inductionHypothesis =>
    exact (skipString_number digits input).trans (inductionHypothesis read)
  | case11 =>
    rename_i h₁ h₂ h₃ h₄ code high _ _ b u pair l₁ l₂ l₃ l₄ input low second _ joined _ inductionHypothesis
    obtain ⟨rfl, rfl⟩ := pair
    rw [skipString_number high, skipString_number second]
    exact inductionHypothesis read
  | case16 collected letter input unnumbered byte stands escape inductionHypothesis =>
    exact (skipString_letter stands input).trans (inductionHypothesis read)
  | case19 collected b input quote escape control inductionHypothesis =>
    rw [skipString.eq_def]
    simp only [if_neg quote, if_neg escape, if_neg control]
    exact inductionHypothesis read
  | _ => exact absurd read (by simp)

/-! ## Numbers -/

theorem bounded_eq_ok {scaled : Scaled} {input rest : Bytes} {number : Number}
    (read : scaled.bounded input = .ok (number, rest)) : input = rest := by
  unfold Scaled.bounded at read
  split at read
  · exact absurd read (by simp)
  · exact (Prod.mk.inj (Except.ok.inj read)).2

/-- Digits in the place of an exponent are passed, behind a sign or without one. -/
theorem skipExponent_of_readExponent {scaled : Scaled} {input rest : Bytes} {number : Number}
    (read : readExponent scaled input = .ok (number, rest)) : skipExponent input = .ok rest := by
  cases input with
  | nil => exact absurd read (by simp [readExponent])
  | cons sign later =>
    have digits {b : UInt8} {others : Bytes} (digit : isDigit b = true) {scaled : Scaled}
        (read : scaled.bounded ((b :: others).dropWhile isDigit) = .ok (number, rest)) :
        (if isDigit b then .ok (others.dropWhile isDigit) else .error .malformed : Except Fault Bytes) =
          .ok rest := by
      have same := bounded_eq_ok read
      rw [List.dropWhile_cons_of_pos digit] at same
      rw [if_pos digit, same]
    unfold readExponent at read
    unfold skipExponent
    dsimp only at read ⊢
    by_cases minus : sign = 0x2D
    · simp only [minus, if_true, or_true] at read ⊢
      split at read
      · exact absurd read (by simp)
      · split at read
        · rename_i digit
          exact digits digit read
        · exact absurd read (by simp)
    by_cases plus : sign = 0x2B
    · simp only [plus, if_true, true_or, (by decide : ¬ (0x2B : UInt8) = 0x2D), if_false] at read ⊢
      split at read
      · exact absurd read (by simp)
      · split at read
        · rename_i digit
          exact digits digit read
        · exact absurd read (by simp)
    · simp only [minus, plus, if_false, or_false] at read ⊢
      split at read
      · rename_i digit
        exact digits digit read
      · exact absurd read (by simp)

theorem skipOptionalExponent_of_readOptionalExponent {scaled : Scaled} {input rest : Bytes}
    {number : Number} (read : readOptionalExponent scaled input = .ok (number, rest)) :
    skipOptionalExponent input = .ok rest := by
  unfold readOptionalExponent at read
  unfold skipOptionalExponent
  split at read
  · split at read
    · rename_i letter
      rw [if_pos letter]
      exact skipExponent_of_readExponent read
    · rename_i other
      rw [if_neg other, bounded_eq_ok read]
  · rw [bounded_eq_ok read]

/-- A kept number is outlined correctly. -/
theorem skipNumber_of_readNumber {negative : Bool} {input rest : Bytes} {number : Number}
    (read : readNumber negative input = .ok (number, rest)) : skipNumber input = .ok rest := by
  have plain {scaled : Scaled} {behind : Bytes}
      (read : scaled.integer negative behind = .ok (number, rest)) : behind = rest := by
    unfold Scaled.integer at read
    split at read
    · exact bounded_eq_ok read
    split at read
    · split at read <;> exact (Prod.mk.inj (Except.ok.inj read)).2
    · exact (Prod.mk.inj (Except.ok.inj read)).2
  unfold readNumber at read
  unfold skipNumber
  split at read
  · split at read <;> exact absurd read (by simp)
  · rename_i first others digits
    split at read
    · exact absurd read (by simp)
    · rename_i idle
      rw [if_neg idle]
      unfold skipFraction
      split at read
      · rename_i decimals point
        rw [point]
        dsimp only at read
        split at read
        · split at read <;> exact absurd read (by simp)
        · rename_i some
          exact (if_neg some).trans (skipOptionalExponent_of_readOptionalExponent read)
      · rename_i later exponent
        rw [exponent]
        exact skipExponent_of_readExponent read
      · rename_i later exponent
        rw [exponent]
        exact skipExponent_of_readExponent read
      · rename_i noPoint noExponent noCapital
        rw [plain read] at noPoint noExponent noCapital ⊢
        split
        · rename_i later
          exact absurd rfl (noPoint later)
        · cases rest with
          | nil => rfl
          | cons b later =>
            apply if_neg
            rintro (exponent | capital)
            · exact noExponent later (by rw [exponent])
            · exact noCapital later (by rw [capital])

end LspProxy.Json
