import LspProxy.Proofs.Message.Widening

/-!
# The range of a document covers it

A position in a document is a number of line endings and a number of code units behind the last of them.
The range of a document ends at a position of another make: the number of lines, which counts an unfinished
line and not the empty one behind a final ending, with the length of the last line counted.

Reading on never leads back (`Tally.Through`), and the range does not end before what has been read of the
whole text: if a line is unfinished, the range ends a line further, and if none is, the text ends at the
start of a line. That holds of every part of a text that starts it, also of one that ends between a carriage
return and its line feed, where the carriage return alone is an ending.
-/
namespace LspProxy

namespace Text

/-- The character ends a line, or is a part of what does. -/
def Ends (c : Char) : Prop := c = '\n' ∨ c = '\r'

instance (c : Char) : Decidable (Ends c) := inferInstanceAs (Decidable (_ ∨ _))

/-- The line endings in a text. -/
def endings : List Char → Nat
  | [] => 0
  | '\r' :: '\n' :: later => endings later + 1
  | c :: later => if Ends c then endings later + 1 else endings later

/-- The code units behind the last line ending. -/
def behindEndings (text : List Char) : Nat :=
  (text.reverse.takeWhile fun c => ¬ Ends c).foldr (fun c units => units + units16 c) 0

/-- What has been read of a text. -/
def tally (text : List Char) : Tally := text.foldl Tally.feed {}

theorem tally_concat (text : List Char) (c : Char) : tally (text ++ [c]) = (tally text).feed c :=
  List.foldl_append

/-! ## What a tally holds -/

/-- A carriage return that waits for its line feed has been counted. -/
def Tally.pending (seen : Tally) : List Char := if seen.returned then ['\r'] else []

/-- A carriage return is an ending of its own unless a line feed follows. -/
theorem endings_return {c : Char} (other : c ≠ '\n') (later : List Char) :
    endings ('\r' :: c :: later) = endings (c :: later) + 1 := by
  rw [endings]
  · exact if_pos (Or.inr rfl)
  · intro rest _ same
    exact other (List.cons.inj same).1

/-- Any other character counts by itself. -/
theorem endings_cons {c : Char} (other : c ≠ '\r') (later : List Char) :
    endings (c :: later) = if Ends c then endings later + 1 else endings later := by
  rw [endings]
  intro rest same _
  exact absurd same other

/-- A tally goes on counting the line endings. The carriage return before, if there is one, has been counted
already, and a line feed that comes now belongs to it. -/
theorem Tally.ended_foldl (seen : Tally) (text : List Char) :
    (text.foldl Tally.feed seen).ended + seen.pending.length = seen.ended + endings (seen.pending ++ text) := by
  induction text generalizing seen with
  | nil =>
    unfold Tally.pending
    split <;> rfl
  | cons c text inductionHypothesis =>
    have next := inductionHypothesis (seen.feed c)
    rw [List.foldl_cons]
    generalize (text.foldl Tally.feed (seen.feed c)).ended = total at next ⊢
    by_cases feed : c = '\n'
    · subst feed
      cases returned : seen.returned with
      | true =>
        simp only [Tally.feed, Tally.pending, returned, if_true] at next ⊢
        change total + 1 = seen.ended + (endings text + 1)
        change total + 0 = seen.ended + endings text at next
        omega
      | false =>
        simp only [Tally.feed, Tally.endLine, Tally.pending, returned, if_true] at next ⊢
        change total + 0 = seen.ended + (endings text + 1)
        change total + 0 = seen.ended + 1 + endings text at next
        omega
    · by_cases back : c = '\r'
      · subst back
        simp only [Tally.feed, if_neg feed, if_true, Tally.endLine, Tally.pending] at next ⊢
        change total + 1 = seen.ended + 1 + endings ('\r' :: text) at next
        cases returned : seen.returned with
        | true =>
          simp only [if_true]
          change total + 1 = seen.ended + endings ('\r' :: '\r' :: text)
          rw [endings_return (by decide)]
          omega
        | false =>
          change total + 0 = seen.ended + endings ('\r' :: text)
          omega
      · have none : ¬ Ends c := fun ends => ends.elim feed back
        simp only [Tally.feed, if_neg feed, if_neg back, Tally.pending] at next ⊢
        change total + 0 = seen.ended + endings text at next
        cases returned : seen.returned with
        | true =>
          simp only [if_true]
          change total + 1 = seen.ended + endings ('\r' :: c :: text)
          rw [endings_return feed, endings_cons back, if_neg none]
          omega
        | false =>
          change total + 0 = seen.ended + endings (c :: text)
          rw [endings_cons back, if_neg none]
          omega

/-- A tally of a text holds its line endings. -/
theorem tally_ended (text : List Char) : (tally text).ended = endings text := by
  have counted := Tally.ended_foldl {} text
  change (tally text).ended + 0 = 0 + endings text at counted
  omega

/-- What is read behind the endings grows with the text, and nothing is behind an ending. -/
theorem behindEndings_concat (text : List Char) (c : Char) :
    behindEndings (text ++ [c]) = if Ends c then 0 else behindEndings text + units16 c := by
  unfold behindEndings
  rw [List.reverse_append, List.reverse_singleton, List.singleton_append, List.takeWhile_cons]
  by_cases ends : Ends c
  · rw [if_pos ends]
    simp [ends]
  · rw [if_neg ends]
    simp [ends]

/-- It holds the code units behind them, and a line feed that is waited for is waited for at the start of a
line. -/
theorem tally_current (text : List Char) :
    (tally text).current = behindEndings text ∧ ((tally text).returned = true → (tally text).current = 0) := by
  induction text using List.reverseRecOn with
  | nil => exact ⟨rfl, fun _ => rfl⟩
  | append_singleton text c inductionHypothesis =>
    obtain ⟨current, start⟩ := inductionHypothesis
    rw [tally_concat, behindEndings_concat]
    unfold Tally.feed
    split
    · rename_i feed
      rw [if_pos (show Ends c from Or.inl feed)]
      split
      · rename_i returned
        exact ⟨start returned, fun absent => absurd absent (by simp)⟩
      · exact ⟨rfl, fun _ => rfl⟩
    · rename_i feed
      split
      · rename_i back
        rw [if_pos (show Ends c from Or.inr back)]
        exact ⟨rfl, fun _ => rfl⟩
      · rename_i back
        rw [if_neg fun ends : Ends c => ends.elim feed back, current]
        exact ⟨rfl, fun absent => absurd absent (by simp)⟩

/-! ## Reading on -/

/-- The second tally is of the same text read further. -/
def Tally.Through (earlier later : Tally) : Prop :=
  earlier.ended < later.ended ∨ earlier.ended = later.ended ∧ earlier.current ≤ later.current

/-- One character more leads on. -/
theorem Tally.through_feed (seen : Tally) (c : Char) : seen.Through (seen.feed c) := by
  unfold Tally.feed
  split
  · split
    · exact Or.inr ⟨rfl, Nat.le_refl _⟩
    · exact Or.inl (Nat.lt_succ_self _)
  · split
    · exact Or.inl (Nat.lt_succ_self _)
    · exact Or.inr ⟨rfl, Nat.le_add_right _ _⟩

/-- So does any text. -/
theorem Tally.through_foldl (seen : Tally) (text : List Char) : seen.Through (text.foldl Tally.feed seen) := by
  induction text generalizing seen with
  | nil => exact Or.inr ⟨rfl, Nat.le_refl _⟩
  | cons c text inductionHypothesis =>
    have first := seen.through_feed c
    have others := inductionHypothesis (seen.feed c)
    unfold Tally.Through at first others ⊢
    rw [List.foldl_cons]
    omega

/-- The measure of a text does not come before what has been read of it. -/
theorem Tally.through_measure (seen : Tally) :
    seen.ended < seen.measure.1 ∨ seen.ended = seen.measure.1 ∧ seen.current ≤ seen.measure.2 := by
  unfold Tally.measure
  split
  · rename_i start
    exact Or.inr ⟨rfl, start ▸ Nat.zero_le _⟩
  · exact Or.inl (Nat.lt_succ_self _)

/-- A measure that can be written is not cut off. -/
theorem lineMetrics_of_le {text : List Char} (counted : (measure text).1 ≤ positionLimit)
    (measured : (measure text).2 ≤ positionLimit) : lineMetrics text = ⟨(measure text).1, (measure text).2⟩ := by
  simp only [lineMetrics, Nat.min_eq_left counted, Nat.min_eq_left measured]

end Text

namespace Message

open Text (endings behindEndings withoutMark lineMetrics positionLimit)

/-- The first position does not come behind the second. -/
def Position.UpTo (front back : Position) : Prop :=
  front.line < back.line ∨ front.line = back.line ∧ front.character ≤ back.character

instance (front back : Position) : Decidable (front.UpTo back) := inferInstanceAs (Decidable (_ ∨ _))

/-- The position at the end of a text. -/
def endPosition (text : List Char) : Position := ⟨endings text, behindEndings text⟩

/-- The range of a text whose measure can be written ends behind every part of the text that starts it. The
request for the diagnostics of a document with this text is written with this range. -/
theorem wholeRange_covers (text : List Char) (counted : (Text.measure text).1 ≤ positionLimit)
    (measured : (Text.measure text).2 ≤ positionLimit) :
    (∀ front, front <+: withoutMark text → (endPosition front).UpTo (wholeRange (lineMetrics text)).stop) ∧
    ∀ disk body request path content, parse DiagnosticRequest.read body = .ok request →
      documentPath request.params.textDocument.uri = .ok path → disk.read path = .ok content →
      Text.Utf8.lossy content = text →
      ∃ written, (expand disk body).value = .ok written ∧
        parse DiagnosticRequest.read (Text.Utf8.encode written) =
          .ok (request.withRange (wholeRange (lineMetrics text))) := by
  constructor
  · rintro front ⟨back, whole⟩
    have further := (Text.tally front).through_foldl back
    have final := (Text.tally (withoutMark text)).through_measure
    rw [Text.tally, ← List.foldl_append, whole] at further
    rw [Text.lineMetrics_of_le counted measured]
    unfold Position.UpTo endPosition wholeRange
    rw [← Text.tally_ended, ← (Text.tally_current front).1]
    unfold Text.Tally.Through at further
    unfold Text.measure
    unfold Text.tally at final ⊢
    dsimp only
    omega
  · rintro disk body request path content parsed located read rfl
    have carries := carries_of_parse parsed
    refine ⟨_, expand_eq_ok_iff.mpr ⟨request, path, content, parsed, located, read, rfl⟩, ?_⟩
    exact DiagnosticRequest.parse_print (carries.writable (documentRange_bounded content))

/-- A text with a mark in front, endings of each kind, a character beyond the basic plane and two endings at
its end. -/
def mixedEndings : List Char := "\uFEFFa\r\nb\r😀\n\r\n".toList

/-- A file system with this document. -/
def mixedDocument : Disk :=
  { root := .leaf (Bytes.ascii "a") (.file (Text.Utf8.encode mixedEndings) false) .empty }

/-- The document up to the character beyond the basic plane ends within the range, which a request about the
document gets. -/
theorem mixedEndings_covered :
    endPosition "a\r\nb\r😀".toList = ⟨2, 2⟩ ∧
      (wholeRange (lineMetrics mixedEndings)).stop = ⟨4, 0⟩ ∧
      (endPosition "a\r\nb\r😀".toList).UpTo (wholeRange (lineMetrics mixedEndings)).stop ∧
      ∃ written, (expand mixedDocument (spelledRequest "-9223372036854775808")).value = .ok written ∧
        parse DiagnosticRequest.read (Text.Utf8.encode written) =
          .ok (leastRequest.withRange (wholeRange (lineMetrics mixedEndings))) := by
  have measure : Text.measure mixedEndings = (4, 0) := by decide
  have covers := wholeRange_covers mixedEndings (by rw [measure]; decide) (by rw [measure]; decide)
  have parsed : parse DiagnosticRequest.read (spelledRequest "-9223372036854775808") = .ok leastRequest := by
    decide +kernel
  have located : documentPath "file:///a" = .ok (Bytes.ascii "/a") := by decide +kernel
  have read : mixedDocument.read (Bytes.ascii "/a") = .ok (Text.Utf8.encode mixedEndings) := by cbv
  have content : Text.Utf8.lossy (Text.Utf8.encode mixedEndings) = mixedEndings := by decide +kernel
  refine ⟨by decide, by rw [Text.lineMetrics_of_le] <;> rw [measure] <;> decide, ?_, ?_⟩
  · exact covers.1 _ ⟨"\n\r\n".toList, by decide⟩
  · exact covers.2 mixedDocument _ leastRequest _ _ parsed located read content

end Message

end LspProxy
