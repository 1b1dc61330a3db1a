import LspProxy.Text.LineMetrics
import LspProxy.Proofs.Text.Lossy
import Mathlib

/-!
# The lines of octets and of their text

A document is kept as octets and measured as text. Lines are cut the same way in both: at a line feed, at a
carriage return, or at the two together, with no line after a final line ending (`linesOf`). A line is what
stands before its ending. `Lined` describes a sequence by its lines, and what is said of lines here is shown
by induction on it: that `linesOf` finds them, that the measure of a text is that of its lines, and that
decoding takes the lines of octets to the lines of the text, because an octet that ends a line is a piece of
its own wherever it stands.
-/
namespace LspProxy.Text

section Lines

variable {α : Type} (cr lf : α)

/-- The lines of a sequence, by the elements that end lines. With a line feed behind it, a carriage return
is part of the ending that the line feed makes. -/
def linesOf [DecidableEq α] : List α → List (List α)
  | [] => []
  | a :: rest =>
    if a = lf then [] :: linesOf rest
    else if a = cr then
      if rest.head? = some lf then linesOf rest else [] :: linesOf rest
    else (a :: (linesOf rest).head?.getD []) :: (linesOf rest).tail

/-- No line ends in this piece. -/
def Unbroken (piece : List α) : Prop := ∀ a ∈ piece, a ≠ cr ∧ a ≠ lf

/-- A sequence and its lines. -/
inductive Lined : List α → List (List α) → Prop where
  | nothing : Lined [] []
  | unended {line : List α} (unbroken : Unbroken cr lf line) (nonempty : line ≠ []) : Lined line [line]
  | fed {line rest : List α} {lines : List (List α)} (unbroken : Unbroken cr lf line)
      (others : Lined rest lines) : Lined (line ++ lf :: rest) (line :: lines)
  | both {line rest : List α} {lines : List (List α)} (unbroken : Unbroken cr lf line)
      (others : Lined rest lines) : Lined (line ++ cr :: lf :: rest) (line :: lines)
  | returned {line rest : List α} {lines : List (List α)} (unbroken : Unbroken cr lf line)
      (alone : rest.head? ≠ some lf) (others : Lined rest lines) :
      Lined (line ++ cr :: rest) (line :: lines)

variable {cr lf}

theorem Unbroken.nil : Unbroken cr lf [] := nofun

theorem unbroken_cons {a : α} {piece : List α} :
    Unbroken cr lf (a :: piece) ↔ (a ≠ cr ∧ a ≠ lf) ∧ Unbroken cr lf piece := List.forall_mem_cons

/-- An element that ends no line belongs to the first line of what follows. -/
theorem Lined.extend {a : α} (plain : a ≠ cr ∧ a ≠ lf) {rest : List α} {lines : List (List α)}
    (lined : Lined cr lf rest lines) :
    Lined cr lf (a :: rest) ((a :: lines.head?.getD []) :: lines.tail) := by
  cases lined with
  | nothing => exact .unended (unbroken_cons.mpr ⟨plain, .nil⟩) (List.cons_ne_nil _ _)
  | unended unbroken _ => exact .unended (unbroken_cons.mpr ⟨plain, unbroken⟩) (List.cons_ne_nil _ _)
  | fed unbroken others => exact .fed (unbroken_cons.mpr ⟨plain, unbroken⟩) others
  | both unbroken others => exact .both (unbroken_cons.mpr ⟨plain, unbroken⟩) others
  | returned unbroken alone others =>
    exact .returned (unbroken_cons.mpr ⟨plain, unbroken⟩) alone others

variable [DecidableEq α]

theorem linesOf_plain {a : α} (plain : a ≠ cr ∧ a ≠ lf) (rest : List α) :
    linesOf cr lf (a :: rest) =
      (a :: (linesOf cr lf rest).head?.getD []) :: (linesOf cr lf rest).tail := by
  rw [linesOf, if_neg plain.2, if_neg plain.1]

theorem linesOf_feed (rest : List α) : linesOf cr lf (lf :: rest) = [] :: linesOf cr lf rest := by
  rw [linesOf, if_pos rfl]

theorem linesOf_both (differ : cr ≠ lf) (rest : List α) :
    linesOf cr lf (cr :: lf :: rest) = [] :: linesOf cr lf rest := by
  rw [linesOf, if_neg differ, if_pos rfl, List.head?_cons, if_pos rfl, linesOf_feed]

theorem linesOf_return (differ : cr ≠ lf) {rest : List α} (alone : rest.head? ≠ some lf) :
    linesOf cr lf (cr :: rest) = [] :: linesOf cr lf rest := by
  rw [linesOf, if_neg differ, if_pos rfl, if_neg alone]

/-- A piece in which no line ends belongs to the first line of what follows. -/
theorem linesOf_append {piece : List α} (unbroken : Unbroken cr lf piece) {rest line : List α}
    {lines : List (List α)} (found : linesOf cr lf rest = line :: lines) :
    linesOf cr lf (piece ++ rest) = (piece ++ line) :: lines := by
  induction piece with
  | nil => exact found
  | cons a piece inductionHypothesis =>
    obtain ⟨plain, unbroken⟩ := unbroken_cons.mp unbroken
    rw [List.cons_append, linesOf_plain plain, inductionHypothesis unbroken]
    rfl

/-- A sequence has no other lines than those found. -/
theorem Lined.found (differ : cr ≠ lf) {all : List α} {lines : List (List α)}
    (lined : Lined cr lf all lines) : linesOf cr lf all = lines := by
  induction lined with
  | nothing => rfl
  | @unended line unbroken nonempty =>
    obtain ⟨a, front, rfl⟩ : ∃ a front, line = front ++ [a] :=
      ⟨_, _, (List.dropLast_concat_getLast nonempty).symm⟩
    have plain : a ≠ cr ∧ a ≠ lf := unbroken a (by simp)
    exact linesOf_append (fun b member => unbroken b (by simp [member])) (linesOf_plain plain [])
  | fed unbroken _ inductionHypothesis =>
    rw [linesOf_append unbroken (linesOf_feed _), inductionHypothesis, List.append_nil]
  | both unbroken _ inductionHypothesis =>
    rw [linesOf_append unbroken (linesOf_both differ _), inductionHypothesis, List.append_nil]
  | returned unbroken alone _ inductionHypothesis =>
    rw [linesOf_append unbroken (linesOf_return differ alone), inductionHypothesis, List.append_nil]

/-- The lines found are the lines of the sequence. -/
theorem lined_linesOf (differ : cr ≠ lf) (all : List α) : Lined cr lf all (linesOf cr lf all) := by
  match all with
  | [] => exact .nothing
  | a :: rest =>
    by_cases feeds : a = lf
    · rw [feeds, linesOf_feed]
      exact .fed .nil (lined_linesOf differ rest)
    by_cases returns : a = cr
    · rw [returns]
      match rest with
      | [] =>
        have alone : ([] : List α).head? ≠ some lf := nofun
        rw [linesOf_return differ alone]
        exact .returned .nil alone .nothing
      | b :: later =>
        by_cases together : b = lf
        · rw [together, linesOf_both differ]
          exact .both .nil (lined_linesOf differ later)
        · have alone : (b :: later).head? ≠ some lf := by simpa using together
          rw [linesOf_return differ alone]
          exact .returned .nil alone (lined_linesOf differ (b :: later))
    · rw [linesOf_plain ⟨returns, feeds⟩]
      exact (lined_linesOf differ rest).extend ⟨returns, feeds⟩

end Lines

/-! ## The measure of a text -/

/-- The length of a text, in UTF-16 code units. -/
def length16 (text : List Char) : Nat := (text.map units16).sum

theorem units16_pos (c : Char) : 0 < units16 c := by
  unfold units16
  split <;> decide

theorem length16_pos {text : List Char} (nonempty : text ≠ []) : 0 < length16 text := by
  cases text with
  | nil => exact absurd rfl nonempty
  | cons c rest =>
    have first := units16_pos c
    simp only [length16, List.map_cons, List.sum_cons]
    omega

/-- The characters of a piece in which no line ends add up. -/
theorem feed_unbroken {piece : List Char} (unbroken : Unbroken '\r' '\n' piece)
    (ended lastEnded current : Nat) :
    piece.foldl Tally.feed ⟨ended, lastEnded, current, false⟩ =
      ⟨ended, lastEnded, current + length16 piece, false⟩ := by
  induction piece generalizing current with
  | nil => simp [length16]
  | cons c piece inductionHypothesis =>
    obtain ⟨⟨unreturned, unfed⟩, others⟩ := unbroken_cons.mp unbroken
    have step : Tally.feed ⟨ended, lastEnded, current, false⟩ c =
        ⟨ended, lastEnded, current + units16 c, false⟩ := by
      simp only [Tally.feed, unfed, if_false, unreturned]
    rw [List.foldl_cons, step, inductionHypothesis others]
    simp [length16, Nat.add_assoc]

/-- A carriage return read before makes a difference only to a line feed. -/
theorem measure_returned {text : List Char} (alone : text.head? ≠ some '\n') (ended lastEnded : Nat) :
    (text.foldl Tally.feed ⟨ended, lastEnded, 0, true⟩).measure =
      (text.foldl Tally.feed ⟨ended, lastEnded, 0, false⟩).measure := by
  cases text with
  | nil => rfl
  | cons c rest =>
    have unfed : c ≠ '\n' := by simpa using alone
    simp only [List.foldl_cons, Tally.feed, unfed, if_false, Tally.endLine]

/-- The length of the last of some lines, and a given one if there is none. -/
def lastLength (lines : List (List Char)) (before : Nat) : Nat := (lines.getLast?.map length16).getD before

@[simp] theorem lastLength_nil (before : Nat) : lastLength [] before = before := rfl

theorem lastLength_cons (line : List Char) (lines : List (List Char)) (before : Nat) :
    lastLength (line :: lines) before = lastLength lines (length16 line) := by
  cases lines with
  | nil => rfl
  | cons second others => simp [lastLength, List.getLast?_cons]

/-- Reading a text adds its lines to those ended before. -/
theorem Lined.measure {text : List Char} {lines : List (List Char)} (lined : Lined '\r' '\n' text lines)
    (ended lastEnded : Nat) :
    (text.foldl Tally.feed ⟨ended, lastEnded, 0, false⟩).measure =
      (ended + lines.length, lastLength lines lastEnded) := by
  induction lined generalizing ended lastEnded with
  | nothing => rfl
  | unended unbroken nonempty =>
    have positive := length16_pos nonempty
    rw [feed_unbroken unbroken, Nat.zero_add, lastLength_cons, lastLength_nil]
    simp only [Tally.measure, Nat.ne_of_gt positive, if_false, List.length_singleton]
  | @fed line rest lines unbroken others inductionHypothesis =>
    have ends : Tally.feed ⟨ended, lastEnded, 0 + length16 line, false⟩ '\n' =
        ⟨ended + 1, length16 line, 0, false⟩ := by simp [Tally.feed, Tally.endLine]
    rw [List.foldl_append, feed_unbroken unbroken, List.foldl_cons, ends, inductionHypothesis,
      lastLength_cons, List.length_cons, Nat.add_right_comm, Nat.add_assoc]
  | @both line rest lines unbroken others inductionHypothesis =>
    have ends : Tally.feed (Tally.feed ⟨ended, lastEnded, 0 + length16 line, false⟩ '\r') '\n' =
        ⟨ended + 1, length16 line, 0, false⟩ := by simp [Tally.feed, Tally.endLine]
    rw [List.foldl_append, feed_unbroken unbroken, List.foldl_cons, List.foldl_cons, ends,
      inductionHypothesis, lastLength_cons, List.length_cons, Nat.add_right_comm, Nat.add_assoc]
  | @returned line rest lines unbroken alone others inductionHypothesis =>
    have ends : Tally.feed ⟨ended, lastEnded, 0 + length16 line, false⟩ '\r' =
        ⟨ended + 1, length16 line, 0, true⟩ := by simp [Tally.feed, Tally.endLine]
    rw [List.foldl_append, feed_unbroken unbroken, List.foldl_cons, ends, measure_returned alone,
      inductionHypothesis, lastLength_cons, List.length_cons, Nat.add_right_comm, Nat.add_assoc]

/-! ## Lines and decoding -/

open Utf8

theorem Unbroken.lossy {octets : Bytes} (unbroken : Unbroken Bytes.carriageReturn Bytes.lineFeed octets) :
    Unbroken '\r' '\n' (lossy octets) := by
  intro c member
  constructor
  · rintro rfl
    exact (unbroken _ (octet_of_mem_lossy (by decide) member)).1 rfl
  · rintro rfl
    exact (unbroken _ (octet_of_mem_lossy (by decide) member)).2 rfl

/-- A decoding begins with a line feed only if the octets do. -/
theorem head_lossy {octets : Bytes} (alone : octets.head? ≠ some Bytes.lineFeed) :
    (lossy octets).head? ≠ some '\n' := by
  intro feeds
  obtain ⟨text, read⟩ := List.head?_eq_some_iff.mp feeds
  obtain ⟨rest, rfl, _⟩ := lossy_eq_cons (by decide) read
  exact alone rfl

/-- The lines of a decoding are the decodings of the lines. -/
theorem Lined.lossy {octets : Bytes} {lines : List Bytes}
    (lined : Lined Bytes.carriageReturn Bytes.lineFeed octets lines) :
    Lined '\r' '\n' (Utf8.lossy octets) (lines.map Utf8.lossy) := by
  have return_around (front back : Bytes) : Utf8.lossy (front ++ Bytes.carriageReturn :: back) =
      Utf8.lossy front ++ '\r' :: Utf8.lossy back := lossy_around front back (by decide : 13 < 128)
  have feed_around (front back : Bytes) : Utf8.lossy (front ++ Bytes.lineFeed :: back) =
      Utf8.lossy front ++ '\n' :: Utf8.lossy back := lossy_around front back (by decide : 10 < 128)
  induction lined with
  | nothing => exact .nothing
  | unended unbroken nonempty => exact .unended unbroken.lossy (mt lossy_eq_nil_iff.mp nonempty)
  | fed unbroken _ inductionHypothesis =>
    rw [feed_around]
    exact .fed unbroken.lossy inductionHypothesis
  | @both line rest lines unbroken _ inductionHypothesis =>
    rw [return_around, ← List.nil_append (Bytes.lineFeed :: rest), feed_around]
    exact .both unbroken.lossy inductionHypothesis
  | returned unbroken alone _ inductionHypothesis =>
    rw [return_around]
    exact .returned unbroken.lossy (head_lossy alone) inductionHypothesis

/-! ## The byte-order mark -/

/-- Octets without a leading byte-order mark. -/
def withoutMarkOctets : Bytes → Bytes
  | 0xEF :: 0xBB :: 0xBF :: octets => octets
  | octets => octets

theorem encodeChar_mark : String.utf8EncodeChar '\uFEFF' = [0xEF, 0xBB, 0xBF] := by decide

/-- The mark of a decoding is the mark of the octets. -/
theorem withoutMark_lossy (octets : Bytes) :
    withoutMark (lossy octets) = lossy (withoutMarkOctets octets) := by
  unfold withoutMarkOctets
  split
  · rename_i rest
    have marked : lossy (0xEF :: 0xBB :: 0xBF :: rest) = '\uFEFF' :: lossy rest := by
      rw [← lossy_encodeChar, encodeChar_mark]
      rfl
    rw [marked]
    rfl
  · rename_i unmarked
    -- A decoding that begins with the mark would have been read off the octets of the mark.
    have other (text : List Char) : lossy octets ≠ '\uFEFF' :: text := by
      intro read
      obtain ⟨rest, same, _⟩ := lossy_eq_cons (by decide) read
      rw [encodeChar_mark] at same
      exact unmarked rest same
    unfold withoutMark
    split
    · rename_i text read
      exact absurd read (other text)
    · rfl

/-- The lines of a document that is kept as these octets. -/
def octetLines (octets : Bytes) : List Bytes :=
  linesOf Bytes.carriageReturn Bytes.lineFeed (withoutMarkOctets octets)

/-- Decoding neither makes nor takes away nor joins lines, and each line decodes alone: the lines of the
decoded text are the decoded lines, and the measure of the text is the number of lines of the octets, and
the length of the last of these decoded by itself, each cut off at the greatest number a position can
hold. -/
theorem lineMetrics_lossy (octets : Bytes) :
    linesOf '\r' '\n' (withoutMark (lossy octets)) = (octetLines octets).map lossy ∧
    lineMetrics (lossy octets) =
      ⟨min (octetLines octets).length positionLimit,
        min (((octetLines octets).getLast?.map fun line => length16 (lossy line)).getD 0)
          positionLimit⟩ := by
  have lined := (lined_linesOf (by decide) (withoutMarkOctets octets)).lossy
  rw [← withoutMark_lossy] at lined
  refine ⟨lined.found (by decide), ?_⟩
  have measured : measure (lossy octets) = _ := lined.measure 0 0
  unfold lineMetrics
  rw [measured]
  simp only [lastLength, List.length_map, List.getLast?_map, Option.map_map, Nat.zero_add]
  rfl

/-- A character cut short in front of a line ending takes nothing of it. -/
example : octetLines [0x61, 0xE2, 0x82, 13, 10, 0xF0] = [[0x61, 0xE2, 0x82], [0xF0]] := by decide

end LspProxy.Text
