import LspProxy.Proofs.Frame.Decoding
import LspProxy.Proofs.Frame.Header

/-!
# Streams of frames and text

A stream made of frames, with text between some of them, is taken apart into exactly these pieces.
Each comes as soon as its bytes are there: a body with its last byte, a text with the last byte of
the token behind it, by which alone its end is known. The statement is about every beginning of the
stream, so nothing is withheld, merged, split or altered at any moment.

Two facts carry it. A frame that is cut short decodes to nothing, because whatever it decoded to
would remain when the missing bytes come. And the token is unbordered, so a text that ends like a
token does not let the decoder find one too early.

A body is one that memory can hold, so its length is a 64-bit word. Lists know no such bound, and it
is the one assumption about bodies.
-/
namespace LspProxy.Frame

/-- The length of a body can be stated in a header. -/
def Fits (body : Bytes) : Prop := body.length < Text.Decimal.wordBound

instance (body : Bytes) : Decidable (Fits body) :=
  inferInstanceAs (Decidable (body.length < Text.Decimal.wordBound))

/-- The token is no longer, and opens with none of its proper suffixes. -/
theorem token_unbordered : Bytes.Unbordered token := by decide

theorem token_ne_nil : token ≠ [] := by decide

/-- A frame decodes to its body, whatever is behind it and whatever the body holds: the scan for the
token ends at the front, and the body is taken by its length. -/
theorem decode_encode_append {body : Bytes} (fits : Fits body) (rest : Bytes) :
    decode (encode body ++ rest) = some (body, rest) := by
  have opens : token <+: encode body ++ rest :=
    (token_prefix_encode body).trans (List.prefix_append _ _)
  have found : Bytes.position? token (encode body ++ rest) = some 0 := by
    rw [Bytes.position?_eq_some_iff]
    refine ⟨?_, opens, fun earlier before => absurd before (by omega)⟩
    have size := opens.length_le
    have positive : 0 < token.length := List.length_pos_iff.mpr token_ne_nil
    omega
  unfold decode
  simp only [found]
  refine decodeFrame_eq_some_iff.mpr ⟨header body.length, carriageReturn_not_mem_header _,
    announced?_header fits, ?_⟩
  simp only [encode_eq_header, List.append_assoc]

/-- A frame that is cut short decodes to nothing. If it decoded to something, so would the whole
frame, with the missing bytes behind the rest; but the whole frame leaves no rest. -/
theorem decode_cut_frame {body cut : Bytes} (fits : Fits body) (begins : cut <+: encode body)
    (short : cut.length < (encode body).length) : decode cut = none := by
  obtain ⟨missing, whole⟩ := begins
  cases decoded : decode cut with
  | none => rfl
  | some message =>
    have same := decode_append decoded missing
    have alone := decode_encode_append fits []
    rw [List.append_nil] at alone
    rw [whole, alone, Option.some.injEq, Prod.mk.injEq] at same
    have nothing : missing = [] := (List.append_eq_nil_iff.mp same.2.symm).2
    rw [← whole, nothing, List.append_nil] at short
    exact absurd short (Nat.lt_irrefl _)

/-- A text without a token is handed on as soon as a token stands behind it. -/
theorem decode_text_append {text : Bytes} (nonempty : text ≠ [])
    (plain : Bytes.position? token text = none) (back : Bytes) :
    decode (text ++ (token ++ back)) = some (text, token ++ back) := by
  have found := Bytes.position?_text_append token_unbordered token_ne_nil plain back
  obtain ⟨before, size⟩ := Nat.exists_eq_succ_of_ne_zero
    (fun empty => nonempty (List.length_eq_zero_iff.mp empty))
  unfold decode
  rw [size] at found
  simp only [found]
  rw [← Nat.succ_eq_add_one, ← size, List.take_left, List.drop_left]

/-- Until then it is held back, also when it ends with a part of a token. -/
theorem decode_cut_text {text cut back : Bytes} (plain : Bytes.position? token text = none)
    (begins : cut <+: text ++ (token ++ back)) (short : cut.length < text.length + token.length) :
    decode cut = none := by
  unfold decode
  rw [Bytes.position?_cut_short token_unbordered token_ne_nil plain begins short]

/-- Frames alone: all of their bodies come back, and nothing is left. -/
theorem drain_encodeAll {bodies : List Bytes} (fits : ∀ body ∈ bodies, Fits body) :
    drain (encodeAll bodies) = (bodies, []) := by
  induction bodies with
  | nil => exact drain_of_none rfl
  | cons body later inductionHypothesis =>
    obtain ⟨first, others⟩ := List.forall_mem_cons.mp fits
    have joined : encodeAll (body :: later) = encode body ++ encodeAll later := by simp [encodeAll]
    rw [joined, drain_of_some (decode_encode_append first _), inductionHypothesis others]

/-- One piece of a stream. -/
inductive Piece where
  | framed (body : Bytes)
  | unframed (text : Bytes)
  deriving Repr, DecidableEq

namespace Piece

/-- The message that a piece is. -/
def content : Piece → Bytes
  | framed body => body
  | unframed text => text

/-- The bytes of a piece in the stream. -/
def wire : Piece → Bytes
  | framed body => encode body
  | unframed text => text

/-- A framed body has a length that can be stated; unframed text is not empty and holds no token. -/
def Sound : Piece → Prop
  | framed body => Fits body
  | unframed text => text ≠ [] ∧ ¬ token <:+: text

/-- How many bytes from its start make a piece complete: up to its last byte, and for text up to the
last byte of the token that ends it. -/
def extent : Piece → Nat
  | framed body => (encode body).length
  | unframed text => text.length + token.length

end Piece

/-- The stream that pieces make up. -/
def wireAll (pieces : List Piece) : Bytes := pieces.flatMap Piece.wire

/-- No text stands right behind another: the two would be one. -/
def Separated : List Piece → Prop
  | .unframed _ :: .unframed _ :: _ => False
  | _ :: later => Separated later
  | [] => True

/-- The pieces that are complete within the first `n` bytes of a stream, the first of them starting
at `start`. Each is judged by itself, by where it stands. -/
def dueWithin (n start : Nat) : List Piece → List Piece
  | [] => []
  | piece :: later =>
    let others := dueWithin n (start + piece.wire.length) later
    if start + piece.extent ≤ n then piece :: others else others

/-- A text is ended by the end of the stream or by a token. -/
theorem wireAll_behind_text {text : Bytes} {later : List Piece}
    (separated : Separated (.unframed text :: later)) :
    later = [] ∨ ∃ back, wireAll later = token ++ back := by
  cases later with
  | nil => exact Or.inl rfl
  | cons next others =>
    cases next with
    | unframed other => exact absurd separated id
    | framed body =>
      obtain ⟨remainder, whole⟩ := token_prefix_encode body
      refine Or.inr ⟨remainder ++ wireAll others, ?_⟩
      unfold wireAll
      rw [List.flatMap_cons, ← List.append_assoc, whole]
      rfl

/-- What is behind a piece is separated as well. -/
theorem Separated.tail {piece : Piece} {later : List Piece} (separated : Separated (piece :: later)) :
    Separated later := by
  cases piece with
  | framed body => exact separated
  | unframed text =>
    cases later with
    | nil => trivial
    | cons next others =>
      cases next with
      | framed body => exact separated
      | unframed other => exact absurd separated id

/-- No piece is complete before a token's length behind its start. -/
theorem Piece.token_le_extent (piece : Piece) : token.length ≤ piece.extent := by
  cases piece with
  | framed body => exact (token_prefix_encode body).length_le
  | unframed text => exact Nat.le_add_left _ _

/-- A piece is complete between its last byte and the end of a token behind that. -/
theorem Piece.extent_bounds (piece : Piece) :
    piece.wire.length ≤ piece.extent ∧ piece.extent ≤ piece.wire.length + token.length := by
  cases piece with
  | framed body => exact ⟨Nat.le_refl _, Nat.le_add_right _ _⟩
  | unframed text => exact ⟨Nat.le_add_right _ _, Nat.le_refl _⟩

/-- Behind a piece that has arrived whole stands a beginning of what follows it. -/
theorem take_wireAll_cons {piece : Piece} {count : Nat} (long : piece.wire.length ≤ count)
    (later : List Piece) :
    (wireAll (piece :: later)).take count =
      piece.wire ++ (wireAll later).take (count - piece.wire.length) := by
  unfold wireAll
  rw [List.flatMap_cons, List.take_append, List.take_of_length_le long]

/-- What ends too soon behind the start of a piece is too short for that piece and for all behind it. -/
theorem dueWithin_eq_nil {n start : Nat} (early : n < start + token.length) (pieces : List Piece) :
    dueWithin n start pieces = [] := by
  induction pieces generalizing start with
  | nil => rfl
  | cons piece later inductionHypothesis =>
    have size := piece.token_le_extent
    have incomplete : ¬ start + piece.extent ≤ n := by omega
    simp only [dueWithin, incomplete, ↓reduceIte]
    exact inductionHypothesis (by omega)

/-- A complete piece at the front of what has arrived is decoded, and what has arrived behind it is
left. -/
theorem decode_complete {piece : Piece} {later : List Piece} {count : Nat} (sound : piece.Sound)
    (separated : Separated (piece :: later)) (complete : piece.extent ≤ count)
    (inside : count ≤ (wireAll (piece :: later)).length) :
    decode ((wireAll (piece :: later)).take count) =
      some (piece.content, (wireAll later).take (count - piece.wire.length)) := by
  rw [take_wireAll_cons (Nat.le_trans piece.extent_bounds.1 complete)]
  cases piece with
  | framed body => exact decode_encode_append sound _
  | unframed text =>
    obtain ⟨nonempty, plain⟩ := sound
    have absent := (Bytes.position?_eq_none_iff token_ne_nil).mpr plain
    simp only [Piece.extent] at complete
    rcases wireAll_behind_text separated with rfl | ⟨back, ended⟩
    · -- No token can have arrived behind the last piece of a stream.
      have positive : 0 < token.length := List.length_pos_iff.mpr token_ne_nil
      simp only [wireAll, Piece.wire, List.flatMap_cons, List.flatMap_nil, List.append_nil] at inside
      omega
    · simp only [Piece.wire, Piece.content]
      rw [ended, List.take_append, List.take_of_length_le (by omega)]
      exact decode_text_append nonempty absent _

/-- An incomplete piece at the front of what has arrived is withheld. -/
theorem decode_incomplete {piece : Piece} {later : List Piece} {count : Nat} (sound : piece.Sound)
    (separated : Separated (piece :: later)) (incomplete : ¬ piece.extent ≤ count) :
    decode ((wireAll (piece :: later)).take count) = none := by
  have short : ((wireAll (piece :: later)).take count).length < piece.extent := by
    rw [List.length_take]
    omega
  have begins : (wireAll (piece :: later)).take count <+: piece.wire ++ wireAll later :=
    List.take_prefix _ _
  cases piece with
  | framed body =>
    have within := List.prefix_of_prefix_length_le begins (List.prefix_append _ _) (Nat.le_of_lt short)
    exact decode_cut_frame sound within short
  | unframed text =>
    have absent := (Bytes.position?_eq_none_iff token_ne_nil).mpr sound.2
    rcases wireAll_behind_text separated with rfl | ⟨back, ended⟩
    · -- The end of the stream is no token, but it is the beginning of one.
      have alone : text ++ wireAll [] <+: text ++ (token ++ []) := by
        simp [wireAll]
      exact decode_cut_text absent (begins.trans alone) short
    · rw [ended] at begins
      exact decode_cut_text absent begins short

/-- Every beginning of a stream consists of the pieces complete within it and a rest, and draining
yields just these pieces and that rest.

The induction is on the pieces, with the stream read from the start of the first. A complete piece is
decoded, and what is behind it is a shorter stream; an incomplete one decodes to nothing and makes up
the rest, since those behind it start too late to be complete. -/
theorem drain_take_from {pieces : List Piece} (sound : ∀ piece ∈ pieces, piece.Sound)
    (separated : Separated pieces) (start : Nat) {count : Nat}
    (inside : count ≤ (wireAll pieces).length) :
    ∃ residual,
      (wireAll pieces).take count = wireAll (dueWithin (start + count) start pieces) ++ residual ∧
      drain ((wireAll pieces).take count) =
        ((dueWithin (start + count) start pieces).map Piece.content, residual) := by
  induction pieces generalizing start count with
  | nil =>
    have empty : (wireAll []).take count = [] := List.take_nil
    rw [empty]
    exact ⟨[], rfl, drain_of_none rfl⟩
  | cons piece later inductionHypothesis =>
    obtain ⟨first, others⟩ := List.forall_mem_cons.mp sound
    obtain ⟨long, near⟩ := piece.extent_bounds
    by_cases complete : piece.extent ≤ count
    · have behind : count - piece.wire.length ≤ (wireAll later).length := by
        simp only [wireAll, List.flatMap_cons, List.length_append] at inside ⊢
        omega
      obtain ⟨residual, parts, drained⟩ :=
        inductionHypothesis others separated.tail (start + piece.wire.length) behind
      have moved : start + piece.wire.length + (count - piece.wire.length) = start + count := by omega
      have due : dueWithin (start + count) start (piece :: later) =
          piece :: dueWithin (start + count) (start + piece.wire.length) later := by
        simp only [dueWithin, Nat.add_le_add_iff_left, complete, ↓reduceIte]
      rw [moved] at parts drained
      refine ⟨residual, ?_, ?_⟩
      · rw [due, take_wireAll_cons (Nat.le_trans long complete), parts]
        simp [wireAll]
      · rw [due, drain_of_some (decode_complete first separated complete inside), drained]
        rfl
    · have due : dueWithin (start + count) start (piece :: later) = [] := by
        simp only [dueWithin, Nat.add_le_add_iff_left, complete, ↓reduceIte]
        exact dueWithin_eq_nil (by omega) later
      rw [due]
      exact ⟨_, rfl, drain_of_none (decode_incomplete first separated complete)⟩

/-- After the first `n` bytes of a stream of frames and texts, draining has yielded exactly the
pieces that are complete by then: the bodies whose last byte is among them, and the texts that are
there together with the token behind them. The bytes left are exactly the others. -/
theorem pieces_delivered_promptly {pieces : List Piece} (sound : ∀ piece ∈ pieces, piece.Sound)
    (separated : Separated pieces) {n : Nat} (inside : n ≤ (wireAll pieces).length) :
    ∃ residual,
      (wireAll pieces).take n = wireAll (dueWithin n 0 pieces) ++ residual ∧
      drain ((wireAll pieces).take n) = ((dueWithin n 0 pieces).map Piece.content, residual) := by
  have general := drain_take_from sound separated 0 inside
  rwa [Nat.zero_add] at general

/-- A text that ends with a part of a token, a body that looks like a header, and an empty body.
After 70 of the 74 bytes the text and the first body have come, and the last header is incomplete. -/
theorem pieces_delivered_promptly_partial_token :
    let pieces := [.unframed (Bytes.ascii "log Content-Le"),
      .framed (Bytes.ascii "Content-Length: 3"), .framed []]
    (∀ piece ∈ pieces, piece.Sound) ∧ Separated pieces ∧ 70 ≤ (wireAll pieces).length ∧
      ∃ residual, (wireAll pieces).take 70 = wireAll (dueWithin 70 0 pieces) ++ residual ∧
        drain ((wireAll pieces).take 70) = ((dueWithin 70 0 pieces).map Piece.content, residual) := by
  intro pieces
  have absent : ¬ token <:+: Bytes.ascii "log Content-Le" :=
    (Bytes.position?_eq_none_iff token_ne_nil).mp (by decide)
  have sound : ∀ piece ∈ pieces, piece.Sound := by
    intro piece member
    simp only [pieces, List.mem_cons, List.not_mem_nil, or_false] at member
    rcases member with rfl | rfl | rfl
    · exact ⟨by decide, absent⟩
    · change Fits (Bytes.ascii "Content-Length: 3")
      decide
    · change Fits []
      decide
  have separated : Separated pieces := trivial
  have inside : 70 ≤ (wireAll pieces).length := by decide
  exact ⟨sound, separated, inside, pieces_delivered_promptly sound separated inside⟩

example : dueWithin 70 0 [.unframed (Bytes.ascii "log Content-Le"),
    .framed (Bytes.ascii "Content-Length: 3"), .framed []] =
      [.unframed (Bytes.ascii "log Content-Le"), .framed (Bytes.ascii "Content-Length: 3")] := by
  decide

end LspProxy.Frame
