import LspProxy.Proofs.Frame.Answering

/-!
# What a reader hands out

With the bytes of what a call gets past behind those held before, the buffer decodes to the message handed
out; or it decodes to nothing, all of it is kept, and the call ends at what it meets next. So the messages
that successive calls hand out are, in order, the first of those drained from all bytes of the stream, and
all of those drained from the bytes before its end if the end is what stops them.

`HandsOut` is the finite observation of such calls. It consists of actual results of `next` and
assumes nothing about decoding.
-/
namespace LspProxy

/-- It keeps a call from nothing: bytes arrive, or the read is made again. -/
def Arrival.Quiet : Arrival → Prop
  | .data bytes => bytes ≠ []
  | .failure cause => cause.isInterrupted
  | .waiting => True
  | .cancellation | .abandoned => False

instance (arrival : Arrival) : Decidable arrival.Quiet :=
  match arrival with
  | .data bytes => inferInstanceAs (Decidable (bytes ≠ []))
  | .failure cause => inferInstanceAs (Decidable (cause.isInterrupted = true))
  | .waiting => isTrue trivial
  | .cancellation => isFalse id
  | .abandoned => isFalse id

/-- Every call gets past what is quiet. -/
theorem Arrival.Quiet.passes {arrival : Arrival} (quiet : arrival.Quiet) : arrival.Passes := by
  cases arrival with
  | data bytes => exact quiet
  | failure cause => exact quiet
  | waiting => trivial
  | cancellation => trivial
  | abandoned => exact quiet

namespace Source

/-- The data of a source before its first end. -/
def beforeEnd : Source → Bytes
  | [] => []
  | .data [] :: _ => []
  | .data (first :: others) :: later => first :: others ++ beforeEnd later
  | _ :: later => beforeEnd later

/-- What a read gets past does not end the stream. -/
theorem beforeEnd_append {passed : Source} (passes : ∀ arrival ∈ passed, arrival.Passes)
    (later : Source) : beforeEnd (passed ++ later) = bytes passed ++ beforeEnd later := by
  induction passed with
  | nil => rfl
  | cons arrival others inductionHypothesis =>
    obtain ⟨front, back⟩ := List.forall_mem_cons.mp passes
    have behind := inductionHypothesis back
    cases arrival with
    | data bytes =>
      cases bytes with
      | nil => exact (front rfl).elim
      | cons first rest =>
        rw [bytes_data_cons, List.append_assoc, ← behind]
        rfl
    | failure cause => exact behind
    | waiting => exact behind
    | cancellation => exact behind
    | abandoned => exact front.elim

/-- The data of a quiet source comes before its end. -/
theorem beforeEnd_of_quiet {source : Source} (quiet : ∀ arrival ∈ source, arrival.Quiet) :
    beforeEnd source = bytes source := by
  have whole := beforeEnd_append (fun arrival member => (quiet arrival member).passes) []
  rw [List.append_nil] at whole
  exact whole.trans (List.append_nil _)

end Source

namespace Frame

namespace Reader

/-- A message handed out is the first of those drained from the bytes still to come, whether all of
them are counted or those before the end of the stream; the others are what the reader still has. -/
theorem next_drain {reader after : Reader} {body : Bytes} (read : reader.next = (.message body, after)) :
    drain (reader.buffer ++ Source.bytes reader.source) =
        (body :: (drain (after.buffer ++ Source.bytes after.source)).1,
          (drain (after.buffer ++ Source.bytes after.source)).2) ∧
      drain (reader.buffer ++ Source.beforeEnd reader.source) =
        (body :: (drain (after.buffer ++ Source.beforeEnd after.source)).1,
          (drain (after.buffer ++ Source.beforeEnd after.source)).2) := by
  cases next_eq_iff.mp read with
  | @read _ _ passed met live call =>
    obtain ⟨parts, past, halts⟩ := call
    cases halts with
    | message decoded later =>
      constructor
      · rw [parts, List.nil_append, Source.bytes_append, ← List.append_assoc]
        exact drain_of_some (decode_append decoded _)
      · rw [parts, List.nil_append, Source.beforeEnd_append past.passes, ← List.append_assoc]
        exact drain_of_some (decode_append decoded _)

/-- A call that finds the end leaves what no message could be made of, and counts it. -/
theorem next_closed {reader after : Reader} {residual : Nat}
    (read : reader.next = (.closed residual, after)) :
    drain (reader.buffer ++ Source.beforeEnd reader.source) = ([], after.buffer) ∧
      residual = after.buffer.length := by
  cases next_eq_iff.mp read with
  | @read _ _ passed met live call =>
    obtain ⟨parts, past, halts⟩ := call
    have ended : Source.beforeEnd (met ++ after.source) = [] := by
      cases halts <;> rfl
    rw [parts, Source.beforeEnd_append past.passes, ended, List.append_nil]
    cases halts with
    | exhausted nothing => exact ⟨drain_of_none nothing, rfl⟩
    | ended nothing later => exact ⟨drain_of_none nothing, rfl⟩

/-- On a quiet stream a call in no cancelled session hands out a message or finds the end, and the
next call is in the same position. -/
theorem resume_quiet {buffer : Bytes} {token : Token} {source : Source} {reading : Reading}
    {after : Reader} (live : ¬ token.isCancelled) (quiet : ∀ arrival ∈ source, arrival.Quiet)
    (read : resume buffer token source = (reading, after)) :
    (after.token = token ∧ ∀ arrival ∈ after.source, arrival.Quiet) ∧
      ((∃ body, reading = .message body) ∨ ∃ residual, reading = .closed residual) := by
  fun_induction resume buffer token source with
  | case1 source buffer token body rest decoded =>
    obtain ⟨rfl, rfl⟩ := Prod.mk.inj read
    exact ⟨⟨rfl, quiet⟩, Or.inl ⟨body, rfl⟩⟩
  | case2 buffer token nothing =>
    obtain ⟨rfl, rfl⟩ := Prod.mk.inj read
    exact ⟨⟨rfl, quiet⟩, Or.inr ⟨buffer.length, rfl⟩⟩
  | case3 buffer token nothing later => exact absurd rfl (quiet (.data []) List.mem_cons_self)
  | case4 buffer token nothing first others later inductionHypothesis =>
    exact inductionHypothesis live (List.forall_mem_cons.mp quiet).2 read
  | case5 buffer token nothing cause later interrupted inductionHypothesis =>
    exact inductionHypothesis live (List.forall_mem_cons.mp quiet).2 read
  | case6 buffer token nothing cause later fatal =>
    exact absurd (quiet (.failure cause) List.mem_cons_self) fatal
  | case7 buffer token nothing later cancelled => exact absurd cancelled live
  | case8 buffer token nothing later clear inductionHypothesis =>
    exact inductionHypothesis live (List.forall_mem_cons.mp quiet).2 read
  | case9 buffer token nothing later inductionHypothesis =>
    exact (quiet .cancellation List.mem_cons_self).elim
  | case10 buffer token nothing later => exact (quiet .abandoned List.mem_cons_self).elim

/-- The messages that calls hand out, one after the other, until a call hands out none, and how that
call ends. Every step is the actual result of a call. -/
inductive HandsOut : Reader → List Bytes → Reading → Prop where
  | stopped {reader after : Reader} {ending : Reading} (read : reader.next = (ending, after))
      (noMessage : ∀ body, ending ≠ .message body) : HandsOut reader [] ending
  | message {reader after : Reader} {body : Bytes} {bodies : List Bytes} {ending : Reading}
      (read : reader.next = (.message body, after)) (later : HandsOut after bodies ending) :
      HandsOut reader (body :: bodies) ending

/-- Calls come to an end: each message takes something off what the reader can still hand out. -/
theorem handsOut_exists (reader : Reader) : ∃ bodies ending, reader.HandsOut bodies ending := by
  generalize size : reader.remaining = count
  induction count using Nat.strongRecOn generalizing reader with
  | ind count inductionHypothesis =>
    rcases read : reader.next with ⟨reading, after⟩
    cases reading with
    | message body =>
      have shorter := next_remaining read
      obtain ⟨bodies, ending, later⟩ := inductionHypothesis after.remaining (by omega) after rfl
      exact ⟨body :: bodies, ending, .message read later⟩
    | closed residual => exact ⟨[], .closed residual, .stopped read (by simp)⟩
    | failed cause => exact ⟨[], .failed cause, .stopped read (by simp)⟩
    | cancelled => exact ⟨[], .cancelled, .stopped read (by simp)⟩
    | abandoned => exact ⟨[], .abandoned, .stopped read (by simp)⟩

/-- A message does not end the calls. -/
theorem HandsOut.ending_ne_message {reader : Reader} {bodies : List Bytes} {ending : Reading}
    (hands : reader.HandsOut bodies ending) (body : Bytes) : ending ≠ .message body := by
  induction hands with
  | stopped read noMessage => exact noMessage body
  | message read later inductionHypothesis => exact inductionHypothesis

/-- What is handed out are the first of the messages drained from all bytes of the stream. -/
theorem HandsOut.isPrefix {reader : Reader} {bodies : List Bytes} {ending : Reading}
    (hands : reader.HandsOut bodies ending) :
    bodies <+: (drain (reader.buffer ++ Source.bytes reader.source)).1 := by
  induction hands with
  | stopped read noMessage => exact List.nil_prefix
  | message read later inductionHypothesis =>
    rw [(next_drain read).1]
    exact List.cons_prefix_cons.mpr ⟨rfl, inductionHypothesis⟩

/-- A call that finds a message leaves what its stream has behind it for later. -/
theorem resume_append {buffer : Bytes} {token : Token} {source : Source} {body : Bytes} {after : Reader}
    (read : resume buffer token source = (.message body, after)) (more : Source) :
    resume buffer token (source ++ more) =
      (.message body, { after with source := after.source ++ more }) := by
  fun_induction resume buffer token source with
  | case1 source buffer token handed rest decoded =>
    obtain ⟨same, rfl⟩ := Prod.mk.inj read
    rw [resume.eq_def, decoded]
    exact congrArg (·, _) same
  | case4 buffer token nothing first others later inductionHypothesis =>
    rw [List.cons_append, resume.eq_def, nothing]
    exact inductionHypothesis read
  | case5 buffer token nothing cause later interrupted inductionHypothesis =>
    rw [List.cons_append, resume.eq_def, nothing]
    simpa only [interrupted, ↓reduceIte] using inductionHypothesis read
  | case8 buffer token nothing later clear inductionHypothesis =>
    rw [List.cons_append, resume.eq_def, nothing]
    simpa only [clear, Bool.false_eq_true, ↓reduceIte] using inductionHypothesis read
  | case9 buffer token nothing later inductionHypothesis =>
    rw [List.cons_append, resume.eq_def, nothing]
    exact inductionHypothesis read
  | _ => cases read

/-- So does a call for the next message. -/
theorem next_append {reader after : Reader} {body : Bytes} (read : reader.next = (.message body, after))
    (more : Source) :
    next { reader with source := reader.source ++ more } =
      (.message body, { after with source := after.source ++ more }) := by
  unfold next at read ⊢
  split at read
  · exact absurd (congrArg Prod.fst read) nofun
  · rename_i live
    rw [if_neg live]
    exact resume_append read more

/-- What is handed out of a stream is handed out first of a stream that goes on. -/
theorem HandsOut.prefix_append {reader : Reader} {bodies others : List Bytes} {ending ending' : Reading}
    (hands : reader.HandsOut bodies ending) {more : Source}
    (longer : HandsOut { reader with source := reader.source ++ more } others ending') :
    bodies <+: others := by
  induction hands generalizing others with
  | stopped read noMessage => exact List.nil_prefix
  | message read later inductionHypothesis =>
    have same := next_append read more
    cases longer with
    | stopped read' noMessage => exact absurd (congrArg Prod.fst (read'.symm.trans same)) (noMessage _)
    | message read' later' =>
      obtain ⟨first, rfl⟩ := Prod.mk.inj (read'.symm.trans same)
      obtain rfl := Reading.message.inj first
      exact List.cons_prefix_cons.mpr ⟨rfl, inductionHypothesis later'⟩

/-- If the end of the stream is what stops the calls, they have handed out all messages drained from
the bytes before it, and the count they report is that of the bytes left over. -/
theorem HandsOut.drained {reader : Reader} {bodies : List Bytes} {residual : Nat}
    (hands : reader.HandsOut bodies (.closed residual)) :
    (drain (reader.buffer ++ Source.beforeEnd reader.source)).1 = bodies ∧
      (drain (reader.buffer ++ Source.beforeEnd reader.source)).2.length = residual := by
  generalize same : Reading.closed residual = ending at hands
  induction hands with
  | stopped read noMessage =>
    subst same
    obtain ⟨drained, counted⟩ := next_closed read
    rw [drained]
    exact ⟨rfl, counted.symm⟩
  | message read later inductionHypothesis =>
    rw [(next_drain read).2]
    exact ⟨congrArg _ (inductionHypothesis same).1, (inductionHypothesis same).2⟩

/-- A quiet stream in no cancelled session is read to its end. -/
theorem HandsOut.closed_of_quiet {reader : Reader} {bodies : List Bytes} {ending : Reading}
    (hands : reader.HandsOut bodies ending) (live : ¬ reader.token.isCancelled)
    (quiet : ∀ arrival ∈ reader.source, arrival.Quiet) : ∃ residual, ending = .closed residual := by
  induction hands with
  | stopped read noMessage =>
    unfold next at read
    simp only [live, Bool.false_eq_true, ↓reduceIte] at read
    rcases (resume_quiet live quiet read).2 with ⟨body, rfl⟩ | closed
    · exact absurd rfl (noMessage body)
    · exact closed
  | message read later inductionHypothesis =>
    unfold next at read
    simp only [live, Bool.false_eq_true, ↓reduceIte] at read
    obtain ⟨same, still⟩ := (resume_quiet live quiet read).1
    exact inductionHypothesis (by rwa [same]) still

end Reader

end Frame

end LspProxy
