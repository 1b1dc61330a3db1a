import LspProxy.Stream.Sink

/-!
# What reaches the other side of a sink

However a sink cuts, interrupts or refuses writes, what it has accepted after a call of `writeAll` is
what it had accepted before with a beginning of the bytes behind it, and with all of them exactly if
the call succeeds. Flushing and closing transmit nothing. A call fails only as the sink itself fails: a write
of what is left is refused for good, or takes nothing (`Refuses`).

Batches are written one after the other, each with a flush behind it, until something fails. What has
been accepted is then always a beginning of the batches joined, and all of them if nothing failed.
A sink is obliging if none of its writes and flushes fails; it may still cut and interrupt them.
-/
namespace LspProxy

/-- The write takes something, or is interrupted and made again. -/
def Turn.Obliging : Turn → Prop
  | .takes bound => 0 < bound
  | .fails failure => failure.isInterrupted

instance (turn : Turn) : Decidable turn.Obliging :=
  match turn with
  | .takes bound => inferInstanceAs (Decidable (0 < bound))
  | .fails failure => inferInstanceAs (Decidable (failure.isInterrupted = true))

namespace Sink

/-- A sink that has seen one more write has accepted its bytes behind all others. -/
theorem accepted_of_wrote {sink after : Sink} {bytes : Bytes}
    (seen : after.seen = .wrote bytes :: sink.seen) : after.accepted = sink.accepted ++ bytes := by
  unfold accepted
  rw [seen, List.reverse_cons, List.flatMap_append]
  simp

/-- Flushing transmits nothing. -/
theorem flush_accepted (sink : Sink) : sink.flush.2.accepted = sink.accepted := by
  unfold flush
  split
  · rfl
  · simp [accepted]

/-- Closing transmits nothing. -/
theorem shutdown_accepted (sink : Sink) : sink.shutdown.2.accepted = sink.accepted := by
  unfold shutdown
  split
  · rfl
  · simp [accepted]

/-- What a bound leaves is a beginning. -/
theorem within_isPrefix (bound : Option Nat) (bytes : Bytes) : within bound bytes <+: bytes := by
  cases bound with
  | none => exact List.prefix_refl bytes
  | some bound => exact List.take_prefix bound bytes

/-- Taking within bounds: what is reported as taken is what has been accepted, and a beginning of the
bytes. -/
theorem absorb_accepted {sink after : Sink} {bound : Option Nat} {bytes taken : Bytes}
    (absorbed : sink.absorb bound bytes = (.ok taken, after)) :
    taken <+: bytes ∧ after.accepted = sink.accepted ++ taken := by
  unfold absorb at absorbed
  have begins := (within_isPrefix bound (within sink.room bytes)).trans (within_isPrefix sink.room bytes)
  generalize within bound (within sink.room bytes) = part at absorbed begins
  split at absorbed
  · exact absurd absorbed (by simp)
  · simp only at absorbed
    split at absorbed
    · simp only [Prod.mk.injEq, Except.ok.injEq] at absorbed
      obtain ⟨rfl, rfl⟩ := absorbed
      exact ⟨List.nil_prefix, (List.append_nil _).symm⟩
    · simp only [Prod.mk.injEq, Except.ok.injEq] at absorbed
      obtain ⟨rfl, rfl⟩ := absorbed
      exact ⟨begins, accepted_of_wrote rfl⟩

/-- Taking within bounds fails without taking anything. -/
theorem absorb_failed {sink after : Sink} {bound : Option Nat} {bytes : Bytes} {failure : Failure}
    (absorbed : sink.absorb bound bytes = (.error failure, after)) : after = sink := by
  unfold absorb at absorbed
  split at absorbed
  · exact (Prod.mk.inj absorbed).2.symm
  · simp only at absorbed
    split at absorbed <;> exact absurd absorbed (by simp)

/-- One write reports what it has transmitted, a beginning of the bytes. -/
theorem write_accepted {sink after : Sink} {bytes taken : Bytes}
    (written : sink.write bytes = (.ok taken, after)) :
    taken <+: bytes ∧ after.accepted = sink.accepted ++ taken := by
  unfold write at written
  split at written
  · exact absurd written (by simp)
  · exact absurd written (by simp)
  · have absorbed := absorb_accepted written
    exact absorbed
  · exact absorb_accepted written

/-- A write that fails transmits nothing. -/
theorem write_failed {sink after : Sink} {bytes : Bytes} {failure : Failure}
    (written : sink.write bytes = (.error failure, after)) : after.accepted = sink.accepted := by
  unfold write at written
  split at written
  · rw [← (Prod.mk.inj written).2]
    rfl
  · rw [← (Prod.mk.inj written).2]
    rfl
  · rw [absorb_failed written]
    rfl
  · rw [absorb_failed written]

/-- Writing all of the bytes transmits a beginning of them, and reports success exactly if nothing is
left of them. The induction follows the loop: interruptions change nothing, and a short write hands
the remainder on. -/
theorem writeAll_accepted (sink : Sink) (bytes : Bytes) :
    ∃ taken left, bytes = taken ++ left ∧
      (sink.writeAll bytes).2.accepted = sink.accepted ++ taken ∧
      ((sink.writeAll bytes).1 = .ok () ↔ left = []) := by
  fun_induction writeAll sink bytes with
  | case1 sink => exact ⟨[], [], rfl, (List.append_nil _).symm, by simp⟩
  | case2 sink first others failure after written retry inductionHypothesis =>
    rw [write_failed written] at inductionHypothesis
    exact inductionHypothesis
  | case3 sink first others failure after written fatal =>
    refine ⟨[], first :: others, rfl, ?_, by simp⟩
    rw [write_failed written, List.append_nil]
  | case4 sink first others after written =>
    refine ⟨[], first :: others, rfl, ?_, by simp⟩
    exact (write_accepted written).2
  | case5 sink first others head taken after written inductionHypothesis =>
    obtain ⟨begins, accepted⟩ := write_accepted written
    obtain ⟨later, left, parts, total, complete⟩ := inductionHypothesis
    obtain ⟨rfl, inside⟩ := List.cons_prefix_cons.mp begins
    refine ⟨head :: taken ++ later, left, ?_, ?_, complete⟩
    · rw [List.append_assoc, ← parts, List.cons_append,
        List.prefix_iff_eq_append.mp inside]
    · rw [total, accepted, List.append_assoc]

/-- The sink has only been interrupted, and less of its schedule is left to interrupt it. -/
def Interrupted (sink : Sink) (failure : Failure) (after : Sink) : Prop :=
  failure.isInterrupted ∧ after.scheduled < sink.scheduled

/-- Single writes bring a sink to another, with this left of the bytes. Each is of what the writes before it
have left; an interrupted one is made again. -/
inductive Takes : Sink → Bytes → Bytes → Sink → Prop where
  | start (sink : Sink) (bytes : Bytes) : Takes sink bytes bytes sink
  | again {sink between after : Sink} {bytes left : Bytes} {failure : Failure}
      (failed : sink.write bytes = (.error failure, between)) (interrupted : sink.Interrupted failure between)
      (later : Takes between bytes left after) : Takes sink bytes left after
  | more {sink between after : Sink} {taken bytes left : Bytes} (given : taken ≠ [])
      (written : sink.write (taken ++ bytes) = (.ok taken, between)) (later : Takes between bytes left after) :
      Takes sink (taken ++ bytes) left after

/-- The sink does not take all of the bytes: a write of what is left fails, or takes nothing of it. -/
inductive Refuses (sink : Sink) (bytes : Bytes) : Failure → Sink → Prop where
  | fails {between after : Sink} {left : Bytes} {failure : Failure} (takes : Takes sink bytes left between)
      (given : left ≠ []) (failed : between.write left = (.error failure, after))
      (lasting : ¬between.Interrupted failure after) : Refuses sink bytes failure after
  | nothing {between after : Sink} {left : Bytes} (takes : Takes sink bytes left between) (given : left ≠ [])
      (written : between.write left = (.ok [], after)) : Refuses sink bytes (.plain .writeZero) after

/-- What was refused behind an interrupted write was refused behind all writes before it. -/
theorem Refuses.again {sink between after : Sink} {bytes : Bytes} {failure cause : Failure}
    (failed : sink.write bytes = (.error cause, between)) (interrupted : sink.Interrupted cause between)
    (refuses : between.Refuses bytes failure after) : sink.Refuses bytes failure after := by
  cases refuses with
  | fails takes given fatal lasting => exact .fails (.again failed interrupted takes) given fatal lasting
  | nothing takes given idle => exact .nothing (.again failed interrupted takes) given idle

/-- And what was refused behind a short write. -/
theorem Refuses.more {sink between after : Sink} {taken bytes : Bytes} {failure : Failure} (some : taken ≠ [])
    (written : sink.write (taken ++ bytes) = (.ok taken, between)) (refuses : between.Refuses bytes failure after) :
    sink.Refuses (taken ++ bytes) failure after := by
  cases refuses with
  | fails takes given fatal lasting => exact .fails (.more some written takes) given fatal lasting
  | nothing takes given idle => exact .nothing (.more some written takes) given idle

/-- Writing all of the bytes fails only as the sink itself does. -/
theorem refuses_of_writeAll {sink after : Sink} {bytes : Bytes} {failure : Failure}
    (failed : sink.writeAll bytes = (.error failure, after)) : sink.Refuses bytes failure after := by
  fun_induction writeAll sink bytes with
  | case1 sink => exact absurd failed (by simp)
  | case2 sink first others cause between written retry inductionHypothesis =>
    exact (inductionHypothesis failed).again written retry
  | case3 sink first others cause between written fatal =>
    obtain ⟨same, rfl⟩ := Prod.mk.inj failed
    obtain rfl := Except.error.inj same
    exact .fails (.start _ _) (List.cons_ne_nil first others) written fatal
  | case4 sink first others between written =>
    obtain ⟨same, rfl⟩ := Prod.mk.inj failed
    obtain rfl := Except.error.inj same
    exact .nothing (.start _ _) (List.cons_ne_nil first others) written
  | case5 sink first others head taken between written inductionHypothesis =>
    have begins := (write_accepted written).1
    obtain ⟨rfl, inside⟩ := List.cons_prefix_cons.mp begins
    have parts : head :: others = (head :: taken) ++ others.drop taken.length := by
      rw [List.cons_append, List.prefix_iff_eq_append.mp inside]
    rw [parts] at written ⊢
    exact (inductionHypothesis failed).more (List.cons_ne_nil head taken) written

/-- Write several byte strings, one after the other, until a write fails. -/
def writeEach (sink : Sink) : List Bytes → Except Failure Unit × Sink
  | [] => (.ok (), sink)
  | bytes :: later =>
    match sink.writeAll bytes with
    | (.error failure, after) => (.error failure, after)
    | (.ok (), after) => after.writeEach later

/-- Write a batch and flush it. -/
def deliver (sink : Sink) (batch : List Bytes) : Except Failure Unit × Sink :=
  match sink.writeEach batch with
  | (.error failure, after) => (.error failure, after)
  | (.ok (), after) => after.flush

/-- One portion is not delivered: it is not taken as a whole, or its flush fails. -/
inductive Undelivered (sink : Sink) (portion : Bytes) : Failure → Sink → Prop where
  | refused {after : Sink} {failure : Failure} (refuses : sink.Refuses portion failure after) :
      Undelivered sink portion failure after
  | unflushed {between after : Sink} {failure : Failure} (written : sink.writeAll portion = (.ok (), between))
      (failed : between.flush = (.error failure, after)) : Undelivered sink portion failure after

/-- A delivery of one portion fails only as the sink itself does. -/
theorem undelivered_of_deliver {sink after : Sink} {portion : Bytes} {failure : Failure}
    (failed : sink.deliver [portion] = (.error failure, after)) : sink.Undelivered portion failure after := by
  unfold deliver writeEach at failed
  rcases written : sink.writeAll portion with ⟨cause | _, between⟩
  · rw [written] at failed
    obtain ⟨same, rfl⟩ := Prod.mk.inj failed
    obtain rfl := Except.error.inj same
    exact .refused (refuses_of_writeAll written)
  · rw [written] at failed
    exact .unflushed written failed

/-- Deliver batches one after the other, until a write or a flush fails. -/
def deliverEach (sink : Sink) : List (List Bytes) → Except Failure Unit × Sink
  | [] => (.ok (), sink)
  | batch :: later =>
    match sink.deliver batch with
    | (.error failure, after) => (.error failure, after)
    | (.ok (), after) => after.deliverEach later

/-- Behind batches that have been delivered the sink goes on with the others. -/
theorem deliverEach_append {sink between : Sink} {front : List (List Bytes)}
    (delivered : sink.deliverEach front = (.ok (), between)) (back : List (List Bytes)) :
    sink.deliverEach (front ++ back) = between.deliverEach back := by
  induction front generalizing sink with
  | nil =>
    obtain rfl := (Prod.mk.inj delivered).2
    rfl
  | cons batch later inductionHypothesis =>
    rw [deliverEach] at delivered
    rcases one : sink.deliver batch with ⟨failure | _, after⟩
    · rw [one] at delivered
      exact absurd (Prod.mk.inj delivered).1 (by simp)
    · rw [one] at delivered
      rw [List.cons_append, deliverEach, one]
      exact inductionHypothesis delivered

/-- What several writes transmit is a beginning of the byte strings joined, and all of it on
success. -/
theorem writeEach_accepted (sink : Sink) (batch : List Bytes) :
    ∃ taken, taken <+: batch.flatten ∧ (sink.writeEach batch).2.accepted = sink.accepted ++ taken ∧
      ((sink.writeEach batch).1 = .ok () → taken = batch.flatten) := by
  induction batch generalizing sink with
  | nil => exact ⟨[], List.nil_prefix, (List.append_nil _).symm, fun _ => rfl⟩
  | cons bytes later inductionHypothesis =>
    obtain ⟨taken, left, parts, accepted, complete⟩ := writeAll_accepted sink bytes
    rw [List.flatten_cons]
    unfold writeEach
    rcases written : sink.writeAll bytes with ⟨result, after⟩
    rw [written] at accepted complete
    cases result with
    | error failure =>
      refine ⟨taken, ?_, accepted, by simp⟩
      exact (parts ▸ List.prefix_append taken left).trans (List.prefix_append _ _)
    | ok done =>
      have all : left = [] := complete.mp rfl
      rw [all, List.append_nil] at parts
      obtain ⟨more, begins, total, whole⟩ := inductionHypothesis after
      refine ⟨bytes ++ more, List.prefix_append_right_inj bytes |>.mpr begins, ?_, ?_⟩
      · rw [total, accepted, parts, List.append_assoc]
      · intro finished
        rw [whole finished]

/-- What a batch transmits is a beginning of it, and all of it on success. -/
theorem deliver_accepted (sink : Sink) (batch : List Bytes) :
    ∃ taken, taken <+: batch.flatten ∧ (sink.deliver batch).2.accepted = sink.accepted ++ taken ∧
      ((sink.deliver batch).1 = .ok () → taken = batch.flatten) := by
  obtain ⟨taken, begins, accepted, complete⟩ := writeEach_accepted sink batch
  refine ⟨taken, begins, ?_⟩
  unfold deliver
  rcases written : sink.writeEach batch with ⟨result, after⟩
  rw [written] at accepted complete
  cases result with
  | error failure => exact ⟨accepted, by simp⟩
  | ok done => exact ⟨(flush_accepted after).trans accepted, fun _ => complete rfl⟩

/-- What batches transmit is a beginning of them joined, and all of them on success. -/
theorem deliverEach_accepted (sink : Sink) (batches : List (List Bytes)) :
    ∃ taken, taken <+: batches.flatten.flatten ∧
      (sink.deliverEach batches).2.accepted = sink.accepted ++ taken ∧
      ((sink.deliverEach batches).1 = .ok () → taken = batches.flatten.flatten) := by
  induction batches generalizing sink with
  | nil => exact ⟨[], List.nil_prefix, (List.append_nil _).symm, fun _ => rfl⟩
  | cons batch later inductionHypothesis =>
    obtain ⟨taken, begins, accepted, complete⟩ := deliver_accepted sink batch
    rw [List.flatten_cons, List.flatten_append]
    unfold deliverEach
    rcases delivered : sink.deliver batch with ⟨result, after⟩
    rw [delivered] at accepted complete
    cases result with
    | error failure => exact ⟨taken, begins.trans (List.prefix_append _ _), accepted, by simp⟩
    | ok done =>
      obtain ⟨more, further, total, whole⟩ := inductionHypothesis after
      refine ⟨batch.flatten ++ more, List.prefix_append_right_inj _ |>.mpr further, ?_, ?_⟩
      · rw [total, accepted, complete rfl, List.append_assoc]
      · intro finished
        rw [whole finished]

/-- No write or flush fails: every write takes something unless it is interrupted, and nothing bounds
the total. How many bytes a write takes may differ from one to the next. -/
structure Obliging (sink : Sink) : Prop where
  chunk : sink.chunk ≠ some 0
  turns : ∀ turn ∈ sink.turns, turn.Obliging
  room : sink.room = none
  flushFailure : sink.flushFailure = none

/-- Without a bound on the total, a bound that is not zero leaves something to take, and what is taken
leaves the sink obliging. -/
theorem Obliging.absorb {sink : Sink} (obliging : sink.Obliging) {bound : Option Nat}
    (positive : bound ≠ some 0) (first : UInt8) (others : Bytes) :
    ∃ taken after, sink.absorb bound (first :: others) = (.ok (first :: taken), after) ∧
      after.Obliging := by
  obtain ⟨taken, part⟩ : ∃ taken, within bound (first :: others) = first :: taken := by
    cases bound with
    | none => exact ⟨others, rfl⟩
    | some bound =>
      cases bound with
      | zero => exact absurd rfl positive
      | succ bound => exact ⟨others.take bound, rfl⟩
  refine ⟨taken, { sink with room := none, seen := .wrote (first :: taken) :: sink.seen }, ?_, ?_⟩
  · have whole : within sink.room (first :: others) = first :: others := by rw [obliging.room]; rfl
    unfold Sink.absorb
    rw [whole, part, obliging.room]
    rfl
  · exact ⟨obliging.chunk, obliging.turns, rfl, obliging.flushFailure⟩

/-- One write to an obliging sink is interrupted, which uses up a part of its schedule, or takes
something; either way it stays obliging. -/
theorem Obliging.write {sink : Sink} (obliging : sink.Obliging) (first : UInt8) (others : Bytes) :
    (∃ failure after, sink.write (first :: others) = (.error failure, after) ∧
      failure.isInterrupted ∧ after.scheduled < sink.scheduled ∧ after.Obliging) ∨
    ∃ taken after, sink.write (first :: others) = (.ok (first :: taken), after) ∧ after.Obliging := by
  obtain ⟨chunk, turns, room, flushFailure⟩ := obliging
  unfold Sink.write
  split
  · rename_i n interrupted
    refine Or.inl ⟨_, _, rfl, rfl, ?_, ⟨chunk, turns, room, flushFailure⟩⟩
    simp only [scheduled, interrupted]
    omega
  · rename_i failure later calm next
    rw [next] at turns
    obtain ⟨interruption, remaining⟩ := List.forall_mem_cons.mp turns
    refine Or.inl ⟨failure, { sink with turns := later }, rfl, interruption, ?_,
      ⟨chunk, remaining, room, flushFailure⟩⟩
    simp [scheduled, next]
  · rename_i bound later calm next
    rw [next] at turns
    obtain ⟨positive, remaining⟩ := List.forall_mem_cons.mp turns
    have bounded : some bound ≠ some 0 := fun same => Nat.ne_of_gt positive (Option.some.inj same)
    have shortened : Obliging { sink with turns := later } := ⟨chunk, remaining, room, flushFailure⟩
    exact Or.inr (shortened.absorb bounded first others)
  · exact Or.inr (Obliging.absorb ⟨chunk, turns, room, flushFailure⟩ chunk first others)

/-- A write to an obliging sink that fails is one to make again, and there are fewer such writes to
come. -/
theorem Obliging.write_error {sink after : Sink} (obliging : sink.Obliging) {first : UInt8}
    {others : Bytes} {failure : Failure}
    (written : sink.write (first :: others) = (.error failure, after)) :
    (failure.isInterrupted ∧ after.scheduled < sink.scheduled) ∧ after.Obliging := by
  rcases obliging.write first others with ⟨_, _, interrupted, again, fewer, still⟩ | ⟨_, _, took, _⟩
  · rw [written, Prod.mk.injEq, Except.error.injEq] at interrupted
    obtain ⟨rfl, rfl⟩ := interrupted
    exact ⟨⟨again, fewer⟩, still⟩
  · rw [written] at took
    exact absurd took (by simp)

/-- A write to an obliging sink that succeeds has taken something. -/
theorem Obliging.write_ok {sink after : Sink} (obliging : sink.Obliging) {first : UInt8}
    {others taken : Bytes} (written : sink.write (first :: others) = (.ok taken, after)) :
    taken ≠ [] ∧ after.Obliging := by
  rcases obliging.write first others with ⟨_, _, interrupted, _⟩ | ⟨_, _, took, still⟩
  · rw [written] at interrupted
    exact absurd interrupted (by simp)
  · rw [written, Prod.mk.injEq, Except.ok.injEq] at took
    obtain ⟨rfl, rfl⟩ := took
    exact ⟨List.cons_ne_nil _ _, still⟩

/-- An obliging sink takes all of the bytes. -/
theorem Obliging.writeAll {sink : Sink} (obliging : sink.Obliging) (bytes : Bytes) :
    ∃ after, sink.writeAll bytes = (.ok (), after) ∧ after.Obliging := by
  fun_induction Sink.writeAll sink bytes with
  | case1 sink => exact ⟨sink, rfl, obliging⟩
  | case2 sink first others failure after written retry inductionHypothesis =>
    exact inductionHypothesis (obliging.write_error written).2
  | case3 sink first others failure after written fatal =>
    exact absurd (obliging.write_error written).1 fatal
  | case4 sink first others after written => exact absurd rfl (obliging.write_ok written).1
  | case5 sink first others head taken after written inductionHypothesis =>
    exact inductionHypothesis (obliging.write_ok written).2

/-- An obliging sink takes several byte strings, one after the other. -/
theorem Obliging.writeEach {sink : Sink} (obliging : sink.Obliging) (batch : List Bytes) :
    ∃ after, sink.writeEach batch = (.ok (), after) ∧ after.Obliging := by
  induction batch generalizing sink with
  | nil => exact ⟨sink, rfl, obliging⟩
  | cons bytes later inductionHypothesis =>
    obtain ⟨after, done, still⟩ := obliging.writeAll bytes
    simp only [Sink.writeEach, done]
    exact inductionHypothesis still

/-- Flushing an obliging sink succeeds. -/
theorem Obliging.flush {sink : Sink} (obliging : sink.Obliging) :
    ∃ after, sink.flush = (.ok (), after) ∧ after.Obliging := by
  obtain ⟨chunk, turns, room, flushFailure⟩ := obliging
  simp only [Sink.flush, flushFailure]
  exact ⟨_, rfl, ⟨chunk, turns, room, rfl⟩⟩

/-- An obliging sink takes a batch whole. -/
theorem Obliging.deliver {sink : Sink} (obliging : sink.Obliging) (batch : List Bytes) :
    ∃ after, sink.deliver batch = (.ok (), after) ∧ after.Obliging := by
  obtain ⟨written, each, still⟩ := obliging.writeEach batch
  obtain ⟨after, flushed, obliged⟩ := still.flush
  refine ⟨after, ?_, obliged⟩
  simp only [Sink.deliver, each, flushed]

/-- An obliging sink takes all batches. -/
theorem Obliging.deliverEach {sink : Sink} (obliging : sink.Obliging) (batches : List (List Bytes)) :
    (sink.deliverEach batches).1 = .ok () := by
  induction batches generalizing sink with
  | nil => rfl
  | cons batch later inductionHypothesis =>
    obtain ⟨after, done, still⟩ := obliging.deliver batch
    simp only [Sink.deliverEach, done]
    exact inductionHypothesis still

end Sink

end LspProxy
