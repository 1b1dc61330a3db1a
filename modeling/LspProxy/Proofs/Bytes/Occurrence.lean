import LspProxy.Bytes

/-!
# First occurrences

The search of the wire format returns the least position at which a pattern stands. That
position is determined by the bytes up to the end of the occurrence, so it does not move when
further bytes arrive. A pattern no proper suffix of which is one of its own beginnings cannot
stand partly in the text before it: behind a text without it, it is found exactly at the end of
that text, whatever the text ends with.
-/
namespace LspProxy.Bytes

/-- The pattern stands at this position and at no earlier one. -/
structure FirstAt (pattern bytes : Bytes) (position : Nat) : Prop where
  inside : position < bytes.length
  found : pattern <+: bytes.drop position
  first : ∀ earlier < position, ¬ pattern <+: bytes.drop earlier

/-- Counting from `skipped` moves every answer by that number. -/
theorem positionFrom_eq_map (pattern bytes : Bytes) (skipped : Nat) :
    positionFrom pattern skipped bytes = (position? pattern bytes).map (· + skipped) := by
  unfold position?
  induction bytes generalizing skipped with
  | nil => rfl
  | cons b rest inductionHypothesis =>
    unfold positionFrom
    by_cases here : pattern.isPrefixOf (b :: rest)
    · simp [here]
    · simp only [here, Bool.false_eq_true, ↓reduceIte]
      rw [inductionHypothesis (skipped + 1), inductionHypothesis (0 + 1), Option.map_map]
      congr 1
      funext position
      simp only [Function.comp_apply]
      omega

/-- The search looks at the front first and then one position further on. -/
theorem position?_cons (pattern : Bytes) (b : UInt8) (rest : Bytes) :
    position? pattern (b :: rest) =
      if pattern <+: b :: rest then some 0 else (position? pattern rest).map (· + 1) := by
  have ahead : positionFrom pattern (0 + 1) rest = (position? pattern rest).map (· + 1) :=
    positionFrom_eq_map pattern rest 1
  rw [← ahead]
  simp only [position?, positionFrom, List.isPrefixOf_iff_prefix]

/-- A first occurrence behind one byte is that at the front, or, if the pattern does not stand
there, one of the rest. -/
theorem firstAt_cons_succ {pattern rest : Bytes} {b : UInt8} {position : Nat} :
    FirstAt pattern (b :: rest) (position + 1) ↔
      ¬ pattern <+: b :: rest ∧ FirstAt pattern rest position := by
  constructor
  · rintro ⟨inside, found, first⟩
    refine ⟨first 0 (by omega), ⟨by simpa using inside, found, ?_⟩⟩
    intro earlier before
    exact first (earlier + 1) (by omega)
  · rintro ⟨front, inside, found, first⟩
    refine ⟨by simpa using inside, found, ?_⟩
    intro earlier before
    cases earlier with
    | zero => exact front
    | succ earlier => exact first earlier (by omega)

/-- The search is exact: it answers with a position if and only if that is the first occurrence. -/
theorem position?_eq_some_iff {pattern bytes : Bytes} {position : Nat} :
    position? pattern bytes = some position ↔ FirstAt pattern bytes position := by
  induction bytes generalizing position with
  | nil =>
    constructor
    · intro found
      simp [position?, positionFrom] at found
    · intro first
      exact absurd first.inside (by simp)
  | cons b rest inductionHypothesis =>
    rw [position?_cons]
    by_cases front : pattern <+: b :: rest
    · simp only [front, ↓reduceIte, Option.some.injEq]
      constructor
      · rintro rfl
        exact ⟨by simp, front, fun earlier before => absurd before (by omega)⟩
      · intro first
        cases position with
        | zero => rfl
        | succ position => exact absurd front (firstAt_cons_succ.mp first).1
    · simp only [front, ↓reduceIte, Option.map_eq_some_iff]
      constructor
      · rintro ⟨behind, found, rfl⟩
        exact firstAt_cons_succ.mpr ⟨front, inductionHypothesis.mp found⟩
      · intro first
        cases position with
        | zero => exact absurd first.found front
        | succ position =>
          exact ⟨position, inductionHypothesis.mpr (firstAt_cons_succ.mp first).2, rfl⟩

/-- An occurrence lies within the bytes as a whole, not only with its start. -/
theorem FirstAt.length_le {pattern bytes : Bytes} {position : Nat}
    (first : FirstAt pattern bytes position) : position + pattern.length ≤ bytes.length := by
  have fits := first.found.length_le
  have inside := first.inside
  rw [List.length_drop] at fits
  omega

/-- Further bytes neither move the first occurrence nor bring forth an earlier one: an earlier one
would end before it does, and so within the bytes that were there. -/
theorem FirstAt.append {pattern front : Bytes} {position : Nat}
    (first : FirstAt pattern front position) (back : Bytes) :
    FirstAt pattern (front ++ back) position := by
  have whole := first.length_le
  refine ⟨?_, ?_, ?_⟩
  · have inside := first.inside
    rw [List.length_append]
    omega
  · rw [List.drop_append_of_le_length (by omega)]
    exact first.found.trans (List.prefix_append _ _)
  · intro earlier before occurs
    rw [List.drop_append_of_le_length (by omega)] at occurs
    have within : pattern <+: front.drop earlier :=
      List.prefix_of_prefix_length_le occurs (List.prefix_append _ _)
        (by rw [List.length_drop]; omega)
    exact first.first earlier before within

/-- Taking bytes away behind a first occurrence does not move it either. -/
theorem FirstAt.of_append {pattern front back : Bytes} {position : Nat}
    (first : FirstAt pattern (front ++ back) position) (positive : 0 < pattern.length)
    (within : position + pattern.length ≤ front.length) : FirstAt pattern front position := by
  refine ⟨by omega, ?_, ?_⟩
  · have found := first.found
    rw [List.drop_append_of_le_length (by omega)] at found
    exact List.prefix_of_prefix_length_le found (List.prefix_append _ _)
      (by rw [List.length_drop]; omega)
  · intro earlier before occurs
    refine first.first earlier before ?_
    rw [List.drop_append_of_le_length (by omega)]
    exact occurs.trans (List.prefix_append _ _)

/-- What is found stays found at the same place. -/
theorem position?_append {pattern front : Bytes} {position : Nat}
    (found : position? pattern front = some position) (back : Bytes) :
    position? pattern (front ++ back) = some position :=
  position?_eq_some_iff.mpr ((position?_eq_some_iff.mp found).append back)

/-- No proper nonempty suffix of the pattern is a beginning of it. -/
def Unbordered (pattern : Bytes) : Prop :=
  ∀ overlap < pattern.length, 0 < overlap → ¬ pattern.drop overlap <+: pattern

instance (pattern : Bytes) : Decidable (Unbordered pattern) :=
  inferInstanceAs (Decidable (∀ overlap < pattern.length, 0 < overlap → ¬ _))

/-- Without an occurrence there is no position at which the pattern stands. -/
theorem not_prefix_of_position?_none {pattern bytes : Bytes}
    (absent : position? pattern bytes = none) (nonempty : pattern ≠ []) (position : Nat) :
    ¬ pattern <+: bytes.drop position := by
  induction bytes generalizing position with
  | nil => simpa using nonempty
  | cons b rest inductionHypothesis =>
    rw [position?_cons] at absent
    by_cases front : pattern <+: b :: rest
    · simp [front] at absent
    · simp only [front, ↓reduceIte, Option.map_eq_none_iff] at absent
      cases position with
      | zero => exact front
      | succ position => exact inductionHypothesis absent position

/-- The search comes to nothing exactly when the pattern occurs nowhere. -/
theorem position?_eq_none_iff {pattern bytes : Bytes} (nonempty : pattern ≠ []) :
    position? pattern bytes = none ↔ ¬ pattern <:+: bytes := by
  constructor
  · rintro absent ⟨before, behind, whole⟩
    apply not_prefix_of_position?_none absent nonempty before.length
    refine ⟨behind, ?_⟩
    rw [← whole, List.append_assoc, List.drop_left]
  · intro nowhere
    cases found : position? pattern bytes with
    | none => rfl
    | some position =>
      have occurs := (position?_eq_some_iff.mp found).found
      exact absurd (occurs.isInfix.trans (List.drop_suffix position bytes).isInfix) nowhere

/-- Behind a text without it, an unbordered pattern is found at the end of the text. An earlier
occurrence would lie within the text, which holds none, or reach beyond its end, and its part
there would be a suffix of the pattern that begins it. -/
theorem position?_text_append {pattern text : Bytes} (unbordered : Unbordered pattern)
    (nonempty : pattern ≠ []) (absent : position? pattern text = none) (back : Bytes) :
    position? pattern (text ++ (pattern ++ back)) = some text.length := by
  have positive : 0 < pattern.length := List.length_pos_iff.mpr nonempty
  rw [position?_eq_some_iff]
  refine ⟨?_, ?_, ?_⟩
  · simp only [List.length_append]
    omega
  · rw [List.drop_left]
    exact List.prefix_append _ _
  · intro earlier before occurs
    rw [List.drop_append_of_le_length (by omega)] at occurs
    by_cases inside : pattern.length ≤ (text.drop earlier).length
    · have within : pattern <+: text.drop earlier :=
        List.prefix_of_prefix_length_le occurs (List.prefix_append _ _) inside
      exact not_prefix_of_position?_none absent nonempty earlier within
    · obtain ⟨later, same⟩ := occurs
      have shifted := congrArg (List.drop (text.drop earlier).length) same
      rw [List.drop_left, List.drop_append_of_le_length (by omega)] at shifted
      have overlap : pattern.drop (text.drop earlier).length <+: pattern ++ back := ⟨later, shifted⟩
      have border : pattern.drop (text.drop earlier).length <+: pattern :=
        List.prefix_of_prefix_length_le overlap (List.prefix_append _ _)
          (by rw [List.length_drop]; omega)
      have some : 0 < (text.drop earlier).length := by
        rw [List.length_drop]
        omega
      exact unbordered _ (by omega) some border

/-- Of a text and an unbordered pattern behind it, no beginning that is cut short holds the
pattern, so a partial pattern is never taken for the whole of it. -/
theorem position?_cut_short {pattern text cut : Bytes} (unbordered : Unbordered pattern)
    (nonempty : pattern ≠ []) (absent : position? pattern text = none) {back : Bytes}
    (begins : cut <+: text ++ (pattern ++ back)) (short : cut.length < text.length + pattern.length) :
    position? pattern cut = none := by
  obtain ⟨later, whole⟩ := begins
  cases found : position? pattern cut with
  | none => rfl
  | some position =>
    have everywhere := position?_append found later
    rw [whole, position?_text_append unbordered nonempty absent back] at everywhere
    have fits := (position?_eq_some_iff.mp found).length_le
    have same : text.length = position := Option.some.inj everywhere
    omega

end LspProxy.Bytes
