import LspProxy.Frame.Codec
import LspProxy.Proofs.Bytes.Occurrence

/-!
# Decoding a growing buffer

A frame that decodes is a line without carriage return that announces a length, an empty line and
that many bytes; `decodeFrame_eq_some_iff` says so in both directions. From it follows that bytes
arriving later leave every decoded message as it is, and come behind what is left. Draining
therefore composes: draining a longer buffer is draining the shorter one and going on from its
residual.

The main statement is that cutting a stream into chunks, wherever the cuts fall, changes neither the
messages nor the bytes left at the end. Nothing is assumed about the bytes: headers may be
malformed, announced lengths may be anything, and tokens may stand inside bodies.
-/
namespace LspProxy.Frame

/-- Decoding again and again: these messages come, in order, and after them nothing, with this
residual. The relation speaks of single calls only; its derivations are the finite runs of them. -/
inductive Drains : Bytes → List Bytes → Bytes → Prop where
  | idle {buffer : Bytes} (nothing : decode buffer = none) : Drains buffer [] buffer
  | message {buffer body rest residual : Bytes} {bodies : List Bytes}
      (decoded : decode buffer = some (body, rest)) (later : Drains rest bodies residual) :
      Drains buffer (body :: bodies) residual

/-- What several steps come to: the messages of all of them, and the buffer after the last, or the
one they started with. -/
def total (buffer : Bytes) (steps : List (List Bytes × Bytes)) : List Bytes × Bytes :=
  (steps.flatMap Prod.fst, (steps.getLast?.map Prod.snd).getD buffer)

/-- The header line is cut off at the first carriage return, and only there. -/
theorem takeWhile_line {line : Bytes} (unbroken : Bytes.carriageReturn ∉ line) (behind : Bytes) :
    (line ++ Bytes.carriageReturn :: behind).takeWhile (· != Bytes.carriageReturn) = line := by
  have kept : ∀ b ∈ line, (b != Bytes.carriageReturn) = true := by
    intro b member
    simp only [bne_iff_ne, ne_eq]
    rintro rfl
    exact unbroken member
  rw [List.takeWhile_append_of_pos kept]
  simp

/-- Bytes can be split off exactly if they are there. -/
theorem split?_eq_some_iff {count : Nat} {bytes front back : Bytes} :
    split? count bytes = some (front, back) ↔ bytes = front ++ back ∧ front.length = count := by
  unfold split?
  constructor
  · intro done
    split at done
    · rename_i enough
      simp only [Option.some.injEq, Prod.mk.injEq] at done
      obtain ⟨rfl, rfl⟩ := done
      exact ⟨(List.take_append_drop count bytes).symm, List.length_take_of_le enough⟩
    · exact absurd done (by simp)
  · rintro ⟨rfl, rfl⟩
    simp

/-- A frame decodes if and only if the buffer is a line without carriage return, two line endings,
a body of the length that the line announces, and the rest. -/
theorem decodeFrame_eq_some_iff {buffer body rest : Bytes} :
    decodeFrame buffer = some (body, rest) ↔
      ∃ line, Bytes.carriageReturn ∉ line ∧ announced? line = some body.length ∧
        buffer = line ++ (lineEnd ++ (lineEnd ++ (body ++ rest))) := by
  constructor
  · intro decoded
    unfold decodeFrame at decoded
    simp only at decoded
    have unbroken : Bytes.carriageReturn ∉ buffer.takeWhile (· != Bytes.carriageReturn) := by
      intro member
      have kept := List.all_eq_true.mp List.all_takeWhile _ member
      simp at kept
    obtain ⟨behind, whole⟩ := List.takeWhile_prefix (l := buffer) (· != Bytes.carriageReturn)
    generalize buffer.takeWhile (· != Bytes.carriageReturn) = line at decoded whole unbroken
    subst whole
    rw [List.drop_left] at decoded
    split at decoded
    · rename_i tail
      cases announcement : announced? line with
      | none => simp [announcement] at decoded
      | some count =>
        simp only [announcement, Option.bind_eq_bind, Option.bind_some] at decoded
        obtain ⟨parts, size⟩ := split?_eq_some_iff.mp decoded
        refine ⟨line, unbroken, by rw [announcement, size], ?_⟩
        rw [parts]
        rfl
    · exact absurd decoded (by simp)
  · rintro ⟨line, unbroken, announcement, rfl⟩
    have cut : (line ++ (lineEnd ++ (lineEnd ++ (body ++ rest)))).takeWhile
        (· != Bytes.carriageReturn) = line :=
      takeWhile_line unbroken (Bytes.lineFeed :: (lineEnd ++ (body ++ rest)))
    unfold decodeFrame
    simp only [cut, List.drop_left]
    change (announced? line).bind (fun count => split? count (body ++ rest)) = some (body, rest)
    rw [announcement, Option.bind_some]
    exact split?_eq_some_iff.mpr ⟨rfl, rfl⟩

/-- A decoded message stays the same when bytes arrive behind it, and they come behind the rest. A
message handed out is never revoked, and one that is withheld never hides another: the first token
and the first carriage return do not move. -/
theorem decode_append {buffer body rest : Bytes} (decoded : decode buffer = some (body, rest))
    (more : Bytes) : decode (buffer ++ more) = some (body, rest ++ more) := by
  unfold decode at decoded
  cases found : Bytes.position? token buffer with
  | none => simp [found] at decoded
  | some before =>
    have still := Bytes.position?_append found more
    unfold decode
    cases before with
    | zero =>
      simp only [found] at decoded
      simp only [still]
      obtain ⟨line, unbroken, announcement, rfl⟩ := decodeFrame_eq_some_iff.mp decoded
      refine decodeFrame_eq_some_iff.mpr ⟨line, unbroken, announcement, ?_⟩
      simp only [List.append_assoc]
    | succ before =>
      have inside := (Bytes.position?_eq_some_iff.mp found).inside
      simp only [found, Option.some.injEq, Prod.mk.injEq] at decoded
      obtain ⟨rfl, rfl⟩ := decoded
      simp only [still]
      rw [List.take_append_of_le_length (by omega), List.drop_append_of_le_length (by omega)]

/-- Nothing to decode: the buffer stays. -/
theorem drain_of_none {buffer : Bytes} (nothing : decode buffer = none) :
    drain buffer = ([], buffer) := by
  rw [drain]
  split
  · rfl
  · rename_i decoded
    rw [nothing] at decoded
    exact absurd decoded (by simp)

/-- A message to decode: it comes first, and draining goes on behind it. -/
theorem drain_of_some {buffer body rest : Bytes} (decoded : decode buffer = some (body, rest)) :
    drain buffer = (body :: (drain rest).1, (drain rest).2) := by
  rw [drain]
  split
  · rename_i nothing
    rw [nothing] at decoded
    exact absurd decoded (by simp)
  · rename_i body' rest' decoded'
    rw [decoded, Option.some.injEq, Prod.mk.injEq] at decoded'
    obtain ⟨rfl, rfl⟩ := decoded'
    rfl

/-- Draining is repeated decoding: it makes exactly one run of calls, and that run ends. -/
theorem drains_iff {buffer residual : Bytes} {bodies : List Bytes} :
    Drains buffer bodies residual ↔ drain buffer = (bodies, residual) := by
  constructor
  · intro run
    induction run with
    | idle nothing => exact drain_of_none nothing
    | message decoded _ inductionHypothesis => rw [drain_of_some decoded, inductionHypothesis]
  · intro drained
    fun_induction drain buffer generalizing bodies residual with
    | case1 buffer nothing =>
      obtain ⟨rfl, rfl⟩ := Prod.mk.inj drained
      exact .idle nothing
    | case2 buffer body rest decoded _ later _ whole inductionHypothesis =>
      obtain ⟨rfl, rfl⟩ := Prod.mk.inj drained
      exact .message decoded (inductionHypothesis whole)

/-- The run of calls that draining makes. -/
theorem drains_drain (buffer : Bytes) : Drains buffer (drain buffer).1 (drain buffer).2 :=
  drains_iff.mpr rfl

/-- What a run leaves holds no complete message. -/
theorem Drains.decode_residual {buffer residual : Bytes} {bodies : List Bytes}
    (run : Drains buffer bodies residual) : decode residual = none := by
  induction run with
  | idle nothing => exact nothing
  | message _ _ inductionHypothesis => exact inductionHypothesis

/-- Every message takes at least one byte, so there are no more of them than bytes. -/
theorem Drains.length_le {buffer residual : Bytes} {bodies : List Bytes}
    (run : Drains buffer bodies residual) : bodies.length ≤ buffer.length := by
  induction run with
  | idle nothing => exact Nat.zero_le _
  | message decoded _ inductionHypothesis =>
    have shorter := decode_length decoded
    rw [List.length_cons]
    omega

/-- A run goes on when bytes arrive: its messages stay, and its residual with the bytes behind it is
what is decoded next. -/
theorem Drains.append {front middle back residual : Bytes} {bodies later : List Bytes}
    (run : Drains front bodies middle) (next : Drains (middle ++ back) later residual) :
    Drains (front ++ back) (bodies ++ later) residual := by
  induction run with
  | idle nothing => exact next
  | message decoded _ inductionHypothesis =>
    exact .message (decode_append decoded back) (inductionHypothesis next)

/-- Draining composes: the messages of a longer buffer are those of its front, and then those of
what the front leaves with the further bytes behind it. -/
theorem drain_append (front back : Bytes) :
    drain (front ++ back) =
      ((drain front).1 ++ (drain ((drain front).2 ++ back)).1,
        (drain ((drain front).2 ++ back)).2) :=
  drains_iff.mp ((drains_drain front).append (drains_drain _))

/-- The first step of several, and the others after it. -/
theorem total_cons (buffer : Bytes) (step : List Bytes × Bytes) (steps : List (List Bytes × Bytes)) :
    total buffer (step :: steps) =
      (step.1 ++ (total step.2 steps).1, (total step.2 steps).2) := by
  cases steps with
  | nil => simp [total]
  | cons next others =>
    simp only [total, List.flatMap_cons, List.getLast?_cons_cons, Prod.mk.injEq, true_and]
    rw [List.getLast?_eq_some_getLast (List.cons_ne_nil next others)]
    rfl

/-- From a buffer that holds no complete message, receiving chunks one after the other comes to the
same as draining the buffer with all of them behind it. -/
theorem total_receiveAll {buffer : Bytes} (idle : decode buffer = none) (chunks : List Bytes) :
    total buffer (receiveAll buffer chunks) = drain (buffer ++ chunks.flatten) := by
  induction chunks generalizing buffer with
  | nil => simp [receiveAll, total, drain_of_none idle]
  | cons chunk chunks inductionHypothesis =>
    have later := inductionHypothesis (drains_drain (buffer ++ chunk)).decode_residual
    have composed := drain_append (buffer ++ chunk) chunks.flatten
    rw [List.flatten_cons, ← List.append_assoc, composed, ← later]
    exact total_cons buffer (drain (buffer ++ chunk)) _

/-- However a stream is cut into chunks, appending and draining them one after the other gives the
messages and the residual of the whole stream drained at once. Each drain is a finite run of
decoding calls that ends with nothing, and makes at most as many messages as the buffer has
bytes. -/
theorem chunking_independent (chunks : List Bytes) :
    total [] (receiveAll [] chunks) = drain chunks.flatten ∧
      ∀ buffer, Drains buffer (drain buffer).1 (drain buffer).2 ∧
        (drain buffer).1.length ≤ buffer.length := by
  constructor
  · exact total_receiveAll rfl chunks
  · intro buffer
    exact ⟨drains_drain buffer, (drains_drain buffer).length_le⟩

end LspProxy.Frame
