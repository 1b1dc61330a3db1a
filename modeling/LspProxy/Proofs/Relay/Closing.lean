import LspProxy.Proofs.Relay.Forwarding

/-!
# When the relay closes the server's stream

The relay uses the server's stream in few ways: it writes the messages of a batch, flushes it, and closes
it at the end. Which of these uses it comes to is read off the batches (`Outcome.calls`): those of the
first batches, up to a use that fails, and a shutdown behind them only if nothing has failed, neither a
use nor a read. So the stream is closed exactly by a relay that ends in order, and then by its last use
(`forward_uses`). A relay that fails leaves the stream open.
-/
namespace LspProxy

namespace Message.Outcome

/-- The uses of the server's stream that deliver a batch. -/
def calls (outcome : Outcome) : List Frame.WriterCall :=
  outcome.bodies.map .write ++ [.flush]

/-- Delivering closes nothing. -/
theorem shutdown_notMem_calls (outcomes : List Outcome) :
    Frame.WriterCall.shutdown ∉ outcomes.flatMap calls := by
  intro member
  obtain ⟨outcome, _, inside⟩ := List.mem_flatMap.mp member
  simp [calls] at inside

end Message.Outcome

namespace Frame

/-- The stream after uses is the stream after the first of them and then the others. -/
theorem performAll_append (sink : Sink) (first others : List WriterCall) :
    (performAll sink (first ++ others)).2 = (performAll (performAll sink first).2 others).2 := by
  induction first generalizing sink with
  | nil => rfl
  | cons call first inductionHypothesis => exact inductionHypothesis _

/-- Writing a message is writing its frame. -/
theorem perform_write (sink : Sink) (body : Bytes) :
    (WriterCall.perform sink (.write body)).2 = (sink.writeAll (encode body)).2 := by
  simp only [WriterCall.perform, send]
  rcases sink.writeAll (encode body) with ⟨failure | _, after⟩
  · rfl
  · rfl

theorem perform_flush (sink : Sink) : (WriterCall.perform sink .flush).2 = sink.flush.2 := by
  simp only [WriterCall.perform]
  rcases sink.flush with ⟨failure | _, after⟩
  · rfl
  · rfl

theorem perform_shutdown (sink : Sink) : (WriterCall.perform sink .shutdown).2 = sink.shutdown.2 := by
  simp only [WriterCall.perform]
  rcases sink.shutdown with ⟨failure | _, after⟩
  · rfl
  · rfl

end Frame

namespace Sink

/-- What no use of a stream but a shutdown changes: how a shutdown will end, and the shutdowns seen. -/
structure StaysOpen (before after : Sink) : Prop where
  failure : after.shutdownFailure = before.shutdownFailure
  seen : after.seen.count .shut = before.seen.count .shut

theorem StaysOpen.refl (sink : Sink) : StaysOpen sink sink := ⟨rfl, rfl⟩

theorem StaysOpen.trans {before middle after : Sink} (first : StaysOpen before middle)
    (second : StaysOpen middle after) : StaysOpen before after :=
  ⟨second.failure.trans first.failure, second.seen.trans first.seen⟩

theorem absorb_staysOpen (sink : Sink) (bound : Option Nat) (bytes : Bytes) :
    StaysOpen sink (sink.absorb bound bytes).2 := by
  unfold absorb
  split
  · exact .refl sink
  · dsimp only
    split
    · exact .refl sink
    · exact ⟨rfl, List.count_cons_of_ne (by simp)⟩

theorem write_staysOpen (sink : Sink) (bytes : Bytes) : StaysOpen sink (sink.write bytes).2 := by
  unfold write
  split
  · exact ⟨rfl, rfl⟩
  · exact ⟨rfl, rfl⟩
  · rename_i bound later _ _
    obtain ⟨failure, seen⟩ := absorb_staysOpen { sink with turns := later } (some bound) bytes
    exact ⟨failure, seen⟩
  · exact absorb_staysOpen sink _ bytes

theorem writeAll_staysOpen (sink : Sink) (bytes : Bytes) : StaysOpen sink (sink.writeAll bytes).2 := by
  have step {sink after : Sink} {bytes : Bytes} {answer : WriteAnswer}
      (written : sink.write bytes = (answer, after)) : StaysOpen sink after := by
    have kept := write_staysOpen sink bytes
    rwa [written] at kept
  fun_induction writeAll sink bytes with
  | case1 sink => exact .refl sink
  | case2 sink first others failure after written retry inductionHypothesis =>
    exact (step written).trans inductionHypothesis
  | case3 sink first others failure after written fatal => exact step written
  | case4 sink first others after written => exact step written
  | case5 sink first others head taken after written inductionHypothesis =>
    exact (step written).trans inductionHypothesis

theorem flush_staysOpen (sink : Sink) : StaysOpen sink sink.flush.2 := by
  unfold flush
  split
  · exact .refl sink
  · exact ⟨rfl, List.count_cons_of_ne (by simp)⟩

/-- Uses without a shutdown leave a stream open. -/
theorem performAll_staysOpen (sink : Sink) {calls : List Frame.WriterCall}
    (open_ : Frame.WriterCall.shutdown ∉ calls) :
    StaysOpen sink (Frame.performAll sink calls).2 := by
  induction calls generalizing sink with
  | nil => exact .refl sink
  | cons call calls inductionHypothesis =>
    have other : Frame.WriterCall.shutdown ≠ call := List.ne_of_not_mem_cons open_
    have later : Frame.WriterCall.shutdown ∉ calls := List.not_mem_of_not_mem_cons open_
    have first : StaysOpen sink (call.perform sink).2 := by
      cases call with
      | write body =>
        rw [Frame.perform_write]
        exact writeAll_staysOpen sink _
      | flush =>
        rw [Frame.perform_flush]
        exact flush_staysOpen sink
      | shutdown => exact absurd rfl other
    exact first.trans (inductionHypothesis _ later)

/-- A stream that can be closed sees a shutdown. -/
theorem shutdown_seen {sink : Sink} (closable : sink.shutdownFailure = none) :
    sink.shutdown.2.seen = .shut :: sink.seen := by
  unfold shutdown
  rw [closable]

/-- Writing messages until one fails is to write the first of them, and all if none fails. -/
theorem writeEach_calls (sink : Sink) (bodies : List Bytes) :
    ∃ made, made <+: bodies.map Frame.WriterCall.write ∧
      (sink.writeEach (bodies.map Frame.encode)).2 = (Frame.performAll sink made).2 ∧
      ((sink.writeEach (bodies.map Frame.encode)).1 = .ok () →
        made = bodies.map Frame.WriterCall.write) := by
  induction bodies generalizing sink with
  | nil => exact ⟨[], List.prefix_refl _, rfl, fun _ => rfl⟩
  | cons body bodies inductionHypothesis =>
    have one : (Frame.performAll sink [.write body]).2 = (sink.writeAll (Frame.encode body)).2 :=
      Frame.perform_write sink body
    simp only [List.map_cons, writeEach]
    rcases written : sink.writeAll (Frame.encode body) with ⟨failure | _, after⟩
    · rw [written] at one
      exact ⟨[.write body], ⟨_, rfl⟩, one.symm, by simp⟩
    · rw [written] at one
      obtain ⟨made, begins, same, complete⟩ := inductionHypothesis after
      refine ⟨.write body :: made, List.cons_prefix_cons.mpr ⟨rfl, begins⟩, ?_, ?_⟩
      · rw [← List.singleton_append, Frame.performAll_append, one]
        exact same
      · intro finished
        rw [complete finished]

/-- Delivering a batch comes to the first of its uses, and to all of them on success. -/
theorem deliver_calls (sink : Sink) (outcome : Message.Outcome) :
    ∃ made, made <+: outcome.calls ∧
      (sink.deliver outcome.frames).2 = (Frame.performAll sink made).2 ∧
      ((sink.deliver outcome.frames).1 = .ok () → made = outcome.calls) := by
  obtain ⟨made, begins, same, complete⟩ := sink.writeEach_calls outcome.bodies
  unfold deliver Message.Outcome.frames
  rcases written : sink.writeEach (outcome.bodies.map Frame.encode) with ⟨failure | _, after⟩
  · rw [written] at same
    exact ⟨made, begins.trans (List.prefix_append _ _), same, by simp⟩
  · rw [written] at same complete
    refine ⟨outcome.calls, List.prefix_refl _, ?_, fun _ => rfl⟩
    rw [Message.Outcome.calls, Frame.performAll_append, ← complete rfl, ← same]
    exact (Frame.perform_flush after).symm

/-- Delivering batches comes to the first of their uses, and to all of them on success. -/
theorem deliverEach_calls (sink : Sink) (outcomes : List Message.Outcome) :
    ∃ made, made <+: outcomes.flatMap Message.Outcome.calls ∧
      (sink.deliverEach (outcomes.map Message.Outcome.frames)).2 = (Frame.performAll sink made).2 ∧
      ((sink.deliverEach (outcomes.map Message.Outcome.frames)).1 = .ok () →
        made = outcomes.flatMap Message.Outcome.calls) := by
  induction outcomes generalizing sink with
  | nil => exact ⟨[], List.prefix_refl _, rfl, fun _ => rfl⟩
  | cons outcome outcomes inductionHypothesis =>
    obtain ⟨made, begins, same, complete⟩ := sink.deliver_calls outcome
    simp only [List.map_cons, deliverEach, List.flatMap_cons]
    rcases delivered : sink.deliver outcome.frames with ⟨failure | _, after⟩
    · rw [delivered] at same
      exact ⟨made, begins.trans (List.prefix_append _ _), same, by simp⟩
    · rw [delivered] at same complete
      obtain ⟨more, further, rest, whole⟩ := inductionHypothesis after
      refine ⟨outcome.calls ++ more, List.prefix_append_right_inj _ |>.mpr further, ?_, ?_⟩
      · rw [Frame.performAll_append, ← complete rfl, ← same]
        exact rest
      · intro finished
        rw [whole finished]

end Sink

namespace Relay

/-- A relay ends in order exactly if all of its batches are delivered and no read has failed. -/
theorem settle_ok_iff (totals : Totals) (ending : Frame.Reading)
    (delivery : Except Failure Unit × Sink) :
    (∃ reported, (settle totals ending delivery).1 = .ok reported) ↔
      delivery.1 = .ok () ∧ ∀ failure, ending ≠ .failed failure := by
  obtain ⟨failure | _, sink⟩ := delivery
  · simp [settle]
  · cases ending <;> simp [settle, conclude]

/-- Where the server's stream is left: closed behind the deliveries by a relay that ends in order, and as
the deliveries have left it by any other. -/
theorem settle_sink (totals : Totals) (ending : Frame.Reading)
    (delivery : Except Failure Unit × Sink) :
    match (settle totals ending delivery).1 with
    | .ok _ => (settle totals ending delivery).2 = delivery.2.shutdown.2
    | .error _ => (settle totals ending delivery).2 = delivery.2 := by
  obtain ⟨failure | _, sink⟩ := delivery
  · rfl
  · cases ending <;> rfl

/-- The uses that a relay has made of the server's stream, given those that are due for its batches, and
what is seen of it when it is done. They are the first of those due. A relay that ends in order has made
all of them, and then closes the stream, once and by its last use; one that fails does not close it. -/
structure Uses (start : Sink) (due : List Frame.WriterCall) (run : Except Failure Totals × Sink)
    (made : List Frame.WriterCall) : Prop where
  begins : made <+: due
  opens : Frame.WriterCall.shutdown ∉ made
  closed : ∀ totals, run.1 = .ok totals →
    made = due ∧ run.2 = (Frame.performAll start (made ++ [.shutdown])).2
  failed : ∀ failure, run.1 = .error failure → run.2 = (Frame.performAll start made).2

/-- So a stream that can be closed has seen one shutdown more if the relay has ended in order, and none
if it has failed. -/
theorem Uses.count_shut {start : Sink} {due made : List Frame.WriterCall}
    {run : Except Failure Totals × Sink} (uses : Uses start due run made)
    (closable : start.shutdownFailure = none) :
    run.2.seen.count .shut = start.seen.count .shut + (if run.1.isOk then 1 else 0) := by
  obtain ⟨failure, seen⟩ := Sink.performAll_staysOpen start uses.opens
  cases answered : run.1 with
  | error failure =>
    rw [uses.failed failure answered, seen]
    rfl
  | ok totals =>
    have last : run.2 = (Frame.performAll start made).2.shutdown.2 := by
      rw [(uses.closed totals answered).2, Frame.performAll_append]
      exact Frame.perform_shutdown _
    rw [last, Sink.shutdown_seen (failure.trans closable), List.count_cons_self, seen]
    rfl

/-- The uses that a relay makes of the server's stream, whatever the two streams do and whenever it is
cancelled. It fails exactly if a write or a flush does, or a read. -/
theorem forward_uses (workspace : Workspace) (outlet : Outlet) (token : Token) (source : Source) :
    let run := outward (forward workspace outlet token source)
    ∃ bodies ending made,
      Frame.Reader.HandsOut { source, token } bodies ending ∧
      let outcomes := treatments { workspace } outlet.log outlet.disk bodies
      Uses outlet.sink (outcomes.flatMap Message.Outcome.calls) run made ∧
      ((∃ totals, run.1 = .ok totals) ↔
        (outlet.sink.deliverEach (outcomes.map Message.Outcome.frames)).1 = .ok () ∧
          ∀ failure, ending ≠ .failed failure) := by
  intro run
  obtain ⟨bodies, ending, hands⟩ := Frame.Reader.handsOut_exists { source, token }
  let outcomes := treatments { workspace } outlet.log outlet.disk bodies
  let delivery := outlet.sink.deliverEach (outcomes.map Message.Outcome.frames)
  have relayed : run = settle (Totals.addAll {} outcomes) ending delivery :=
    outward_forwardFrom_handsOut hands { workspace } outlet {}
  obtain ⟨made, begins, same, complete⟩ := outlet.sink.deliverEach_calls outcomes
  have left := settle_sink (Totals.addAll {} outcomes) ending delivery
  have inOrder := settle_ok_iff (Totals.addAll {} outcomes) ending delivery
  rw [← relayed] at left inOrder
  refine ⟨bodies, ending, made, hands, ⟨begins, ?_, ?_, ?_⟩, inOrder⟩
  · intro member
    exact Message.Outcome.shutdown_notMem_calls outcomes (begins.subset member)
  · intro totals answered
    rw [answered] at left
    refine ⟨complete (inOrder.mp ⟨totals, answered⟩).1, ?_⟩
    rw [Frame.performAll_append, ← same, left]
    exact (Frame.perform_shutdown _).symm
  · intro failure answered
    rw [answered] at left
    rw [left, same]

end Relay

end LspProxy
