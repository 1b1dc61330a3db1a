import LspProxy.Frame.Writer
import LspProxy.Proofs.Stream.Sink

/-!
# What a writer transmits

A use of a writer is seen from outside as a call, an answer, and the bytes that the stream accepts while
the call lasts. The answer can be trusted (`Use.Truthful`): a frame that is reported as sent is what has
been accepted, a write that fails has left a part of its frame behind and not all of it, and nothing else
transmits anything. No use fails but by a failure of the stream (`WriterCall.Answered`).

One use depends on the stream alone, since the buffer is cleared before it is filled (`perform_eq`). From
one use to the next nothing is known of the stream but what it has seen, so a run of uses lets it behave
each time as it likes: it may fail a flush and allow the next. The uses that `performAll` makes are a run in
which the stream goes on as it is.
-/
namespace LspProxy.Frame

/-- One use of a writer as it is seen from outside. -/
structure Use where
  call : WriterCall
  answer : WriterAnswer
  /-- The bytes that the stream has accepted during the call. -/
  transmitted : Bytes
  deriving Repr, DecidableEq

/-- The answer says what has been transmitted. -/
def Use.Truthful : Use → Prop
  | ⟨.write body, .sent wire, transmitted⟩ => wire = encode body ∧ transmitted = wire
  | ⟨.write body, .failed _, transmitted⟩ => transmitted <+: encode body ∧ transmitted ≠ encode body
  | ⟨.write _, .done, _⟩ => False
  | ⟨.flush, .sent _, _⟩ | ⟨.shutdown, .sent _, _⟩ => False
  | ⟨.flush, _, transmitted⟩ | ⟨.shutdown, _, transmitted⟩ => transmitted = []

/-- What a use comes to on a stream: it fails exactly as the stream does, which is left as the use has left it. -/
inductive WriterCall.Answered (sink : Sink) : WriterCall → WriterAnswer → Sink → Prop where
  | sent {body : Bytes} {after : Sink} (taken : sink.writeAll (encode body) = (.ok (), after)) :
      Answered sink (.write body) (.sent (encode body)) after
  | refused {body : Bytes} {failure : Failure} {after : Sink} (refuses : sink.Refuses (encode body) failure after) :
      Answered sink (.write body) (.failed failure) after
  | flushed {after : Sink} (flushed : sink.flush = (.ok (), after)) : Answered sink .flush .done after
  | unflushed {failure : Failure} {after : Sink} (failed : sink.flush = (.error failure, after)) :
      Answered sink .flush (.failed failure) after
  | shut {after : Sink} (shut : sink.shutdown = (.ok (), after)) : Answered sink .shutdown .done after
  | unshut {failure : Failure} {after : Sink} (failed : sink.shutdown = (.error failure, after)) :
      Answered sink .shutdown (.failed failure) after

/-- The stream alone decides whether a use of it fails, and how. -/
theorem WriterCall.perform_answered (sink : Sink) (call : WriterCall) :
    call.Answered sink (call.perform sink).1 (call.perform sink).2 := by
  cases call with
  | write body =>
    simp only [WriterCall.perform, send]
    rcases written : sink.writeAll (encode body) with ⟨failure | _, after⟩
    · exact .refused (Sink.refuses_of_writeAll written)
    · exact .sent written
  | flush =>
    simp only [WriterCall.perform]
    rcases flushed : sink.flush with ⟨failure | _, after⟩
    · exact .unflushed flushed
    · exact .flushed flushed
  | shutdown =>
    simp only [WriterCall.perform]
    rcases closed : sink.shutdown with ⟨failure | _, after⟩
    · exact .unshut closed
    · exact .shut closed

/-- A use of the stream transmits what its answer says, however the stream takes it. -/
theorem WriterCall.perform_truthful (sink : Sink) (call : WriterCall) :
    ∃ transmitted, (call.perform sink).2.accepted = sink.accepted ++ transmitted ∧
      Use.Truthful ⟨call, (call.perform sink).1, transmitted⟩ := by
  cases call with
  | write body =>
    obtain ⟨taken, left, parts, accepted, complete⟩ := sink.writeAll_accepted (encode body)
    refine ⟨taken, ?_⟩
    simp only [WriterCall.perform, send]
    rcases written : sink.writeAll (encode body) with ⟨failure | _, after⟩
    · rw [written] at accepted complete
      refine ⟨accepted, parts ▸ List.prefix_append taken left, fun whole => ?_⟩
      have nothing : left = [] := List.append_right_eq_self.mp (parts.symm.trans whole.symm)
      exact absurd (complete.mpr nothing) nofun
    · rw [written] at accepted complete
      have whole : encode body = taken := by rw [parts, complete.mp rfl, List.append_nil]
      exact ⟨accepted, rfl, whole.symm⟩
  | flush =>
    have nothing := sink.flush_accepted
    refine ⟨[], ?_⟩
    simp only [WriterCall.perform]
    rcases flushed : sink.flush with ⟨failure | _, after⟩
    · rw [flushed] at nothing
      exact ⟨nothing.trans (List.append_nil _).symm, rfl⟩
    · rw [flushed] at nothing
      exact ⟨nothing.trans (List.append_nil _).symm, rfl⟩
  | shutdown =>
    have nothing := sink.shutdown_accepted
    refine ⟨[], ?_⟩
    simp only [WriterCall.perform]
    rcases closed : sink.shutdown with ⟨failure | _, after⟩
    · rw [closed] at nothing
      exact ⟨nothing.trans (List.append_nil _).symm, rfl⟩
    · rw [closed] at nothing
      exact ⟨nothing.trans (List.append_nil _).symm, rfl⟩

/-- What is in the buffer after a use. -/
def WriterCall.leaves (buffer : Bytes) : WriterCall → Bytes
  | .write _ => []
  | .flush | .shutdown => buffer

namespace Writer

/-- A write is one to the stream, whatever is in the buffer, and leaves nothing in it. -/
theorem write_eq (writer : Writer) (body : Bytes) :
    writer.write body = ((send writer.sink body).1, ⟨(send writer.sink body).2, []⟩) := by
  simp only [write, split, fill, send, List.nil_append]
  rcases writer.sink.writeAll (encode body) with ⟨failure | _, sink⟩
  · rfl
  · rfl

/-- So is every use. -/
theorem perform_eq (writer : Writer) (call : WriterCall) :
    writer.perform call =
      ((call.perform writer.sink).1, ⟨(call.perform writer.sink).2, call.leaves writer.buffer⟩) := by
  cases call with
  | write body =>
    simp only [perform, WriterCall.perform, write_eq]
    rcases send writer.sink body with ⟨failure | wire, sink⟩
    · rfl
    · rfl
  | flush =>
    simp only [perform, WriterCall.perform]
    rcases writer.sink.flush with ⟨failure | _, sink⟩
    · rfl
    · rfl
  | shutdown =>
    simp only [perform, WriterCall.perform]
    rcases writer.sink.shutdown with ⟨failure | _, sink⟩
    · rfl
    · rfl

/-- The writer, with a stream that has seen the same and goes on to behave like another. -/
def facing (writer : Writer) (behaviour : Sink) : Writer :=
  { writer with sink := { behaviour with seen := writer.sink.seen } }

/-- Uses of a writer, one after the other, and the writer that they leave. Between two uses the stream may
come to behave in any way. -/
inductive Run : Writer → List Use → Writer → Prop where
  | done (writer : Writer) : Run writer [] writer
  | use {writer after final : Writer} {answer : WriterAnswer} {uses : List Use} (behaviour : Sink)
      (call : WriterCall) (performed : (writer.facing behaviour).perform call = (answer, after))
      (later : Run after uses final) :
      Run writer (⟨call, answer, after.sink.accepted.drop writer.sink.accepted.length⟩ :: uses) final

/-- Every sequence of calls is carried out in a run. -/
theorem performAll_run (writer : Writer) (calls : List WriterCall) :
    ∃ uses, Run writer uses (writer.performAll calls).2 ∧ uses.map Use.call = calls ∧
      uses.map Use.answer = (writer.performAll calls).1 := by
  induction calls generalizing writer with
  | nil => exact ⟨[], .done writer, rfl, rfl⟩
  | cons call calls inductionHypothesis =>
    obtain ⟨uses, run, made, answered⟩ := inductionHypothesis (writer.perform call).2
    exact ⟨_, .use writer.sink call rfl run, congrArg _ made, congrArg _ answered⟩

/-- One use in a run: the stream has accepted more, and the answer says what. -/
theorem perform_accepted {writer after : Writer} {behaviour : Sink} {call : WriterCall}
    {answer : WriterAnswer} (performed : (writer.facing behaviour).perform call = (answer, after)) :
    let use : Use := ⟨call, answer, after.sink.accepted.drop writer.sink.accepted.length⟩
    after.sink.accepted = writer.sink.accepted ++ use.transmitted ∧ use.Truthful := by
  rw [perform_eq] at performed
  obtain ⟨rfl, rfl⟩ := Prod.mk.inj performed
  obtain ⟨transmitted, accepted, truthful⟩ := call.perform_truthful (writer.facing behaviour).sink
  have during : (call.perform (writer.facing behaviour).sink).2.accepted.drop
      writer.sink.accepted.length = transmitted := by
    rw [accepted]
    exact List.drop_left
  intro use
  have seen : use = ⟨call, (call.perform (writer.facing behaviour).sink).1, transmitted⟩ :=
    congrArg (Use.mk call _) during
  rw [seen]
  exact ⟨accepted, truthful⟩

namespace Run

variable {writer final : Writer} {uses : List Use}

/-- All answers of a run are true, and what the stream has accepted during the run is what the uses have
transmitted, one after the other. -/
theorem truthful (run : Run writer uses final) :
    (∀ use ∈ uses, use.Truthful) ∧
      final.sink.accepted = writer.sink.accepted ++ uses.flatMap Use.transmitted := by
  induction run with
  | done writer => exact ⟨nofun, (List.append_nil _).symm⟩
  | use behaviour call performed _ inductionHypothesis =>
    obtain ⟨accepted, truthful⟩ := perform_accepted performed
    obtain ⟨others, total⟩ := inductionHypothesis
    refine ⟨List.forall_mem_cons.mpr ⟨truthful, others⟩, total.trans ?_⟩
    rw [List.flatMap_cons, ← List.append_assoc]
    exact congrArg (· ++ _) accepted

/-- The uses do not depend on what the buffer has held. -/
theorem buffer (run : Run writer uses final) (held : Bytes) :
    ∃ left, Run { writer with buffer := held } uses { final with buffer := left } := by
  induction run generalizing held with
  | done writer => exact ⟨held, .done _⟩
  | @use writer after final answer uses behaviour call performed _ inductionHypothesis =>
    obtain ⟨left, later⟩ := inductionHypothesis (call.leaves held)
    have same : (facing { writer with buffer := held } behaviour).perform call =
        (answer, { after with buffer := call.leaves held }) := by
      rw [perform_eq] at performed ⊢
      obtain ⟨rfl, rfl⟩ := Prod.mk.inj performed
      rfl
    have run := Run.use behaviour call same later
    exact ⟨left, run⟩

/-- Nothing stays in the buffer. -/
theorem empties (run : Run writer uses final) (empty : writer.buffer = []) : final.buffer = [] := by
  induction run with
  | done writer => exact empty
  | use behaviour call performed _ inductionHypothesis =>
    apply inductionHypothesis
    rw [perform_eq] at performed
    obtain ⟨rfl, rfl⟩ := Prod.mk.inj performed
    cases call with
    | write body => rfl
    | flush => exact empty
    | shutdown => exact empty

end Run

/-- A writer reports exactly what it transmits. In every run of uses, however the stream takes them,
interrupts them and fails them, each answer is true of the bytes that the stream has accepted during the
use, and these bytes, one use after the other, are all that it has accepted. What an earlier use has left
in the buffer, whether it failed or not, has no part in it, and a new writer's buffer is empty between any
two uses. Every sequence of calls makes such a run. A use fails only if the stream fails, with what the
stream fails with. -/
theorem reports_transmission (writer : Writer) :
    (∀ call : WriterCall, call.Answered writer.sink (writer.perform call).1 (writer.perform call).2.sink) ∧
    (∀ calls, ∃ uses, Run writer uses (writer.performAll calls).2 ∧ uses.map Use.call = calls ∧
      uses.map Use.answer = (writer.performAll calls).1) ∧
      ∀ uses final, Run writer uses final →
        (∀ use ∈ uses, use.Truthful) ∧
          final.sink.accepted = writer.sink.accepted ++ uses.flatMap Use.transmitted ∧
          (∀ held, ∃ left, Run { writer with buffer := held } uses { final with buffer := left }) ∧
          (writer.buffer = [] → final.buffer = []) := by
  refine ⟨fun call => ?_, writer.performAll_run, fun uses final run => ?_⟩
  · rw [perform_eq]
    exact call.perform_answered writer.sink
  · obtain ⟨truthful, total⟩ := run.truthful
    exact ⟨truthful, total, run.buffer, run.empties⟩

/-- A write that is cut short, a flush, and a write of which the buffer has kept nothing. -/
example :
    let sink : Sink := { turns := [.takes 3, .fails (.plain .interrupted), .takes 2, .takes 0], chunk := some 8 }
    let calls : List WriterCall := [.write (Bytes.ascii "lost"), .flush, .write (Bytes.ascii "kept")]
    let run := performAll { sink } calls
    run.1 = [.failed (.plain .writeZero), .done, .sent (encode (Bytes.ascii "kept"))] ∧
      run.2.sink.accepted = Bytes.ascii "Conte" ++ encode (Bytes.ascii "kept") := by
  cbv

end Writer

end LspProxy.Frame
