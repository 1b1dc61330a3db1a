import LspProxy.Proofs.Stream.Sink

/-!
# What a sink sees, in order

A sink cuts what is written to it into pieces of its own choosing. Behind the stream the cuts cannot be
seen, so what counts of a call is which bytes the sink has seen written and where the flushes stand
between them (`Shows`). Writing all of the bytes shows a beginning of them. A row of portions that are
each written and flushed shows exactly these writes and flushes, one pair for each portion
(`deliverEach_seen`).
-/
namespace LspProxy.Sink

/-- What the sink has seen from one point to a later one, adjacent writes as one, oldest first. -/
def Shows (before after : Sink) (events : List SinkEvent) : Prop :=
  ∃ fresh, after.seen = fresh ++ before.seen ∧ merge fresh [] = events

/-- Each portion written, and flushed before the next. -/
def rounds (portions : List Bytes) : List SinkEvent :=
  portions.flatMap fun portion => [.wrote portion, .flushed]

/-- A write of which the sink has taken this much. -/
def share (taken : Bytes) : List SinkEvent := if taken = [] then [] else [.wrote taken]

/-- The bytes written in a row of events, oldest first. -/
def written (events : List SinkEvent) : Bytes :=
  events.flatMap fun event =>
    match event with
    | .wrote bytes => bytes
    | _ => []

theorem written_append (front back : List SinkEvent) : written (front ++ back) = written front ++ written back :=
  List.flatMap_append

theorem written_rounds (portions : List Bytes) : written (rounds portions) = portions.flatten := by
  induction portions with
  | nil => rfl
  | cons portion portions inductionHypothesis => exact congrArg (portion ++ ·) inductionHypothesis

theorem written_share (taken : Bytes) : written (share taken) = taken := by
  unfold share
  split
  · rename_i empty
    exact empty.symm
  · exact List.append_nil taken

/-! ## Adjacent writes -/

/-- What was seen later is put behind what was seen before it. -/
theorem merge_append (newer older merged : List SinkEvent) :
    merge (newer ++ older) merged = merge older (merge newer merged) := by
  induction newer generalizing merged with
  | nil => rfl
  | cons event newer inductionHypothesis =>
    cases event with
    | flushed => exact inductionHypothesis _
    | shut => exact inductionHypothesis _
    | wrote bytes =>
      cases merged with
      | nil => exact inductionHypothesis _
      | cons later merged =>
        cases later with
        | wrote more => exact inductionHypothesis _
        | flushed => exact inductionHypothesis _
        | shut => exact inductionHypothesis _

/-- The pieces of a write come out as one, with a write behind them if there is one. -/
theorem merge_pieces (pieces : List Bytes) (later : Bytes) (merged : List SinkEvent) :
    merge (pieces.map .wrote) (.wrote later :: merged) =
      .wrote (pieces.reverse.flatten ++ later) :: merged := by
  induction pieces generalizing later with
  | nil => rfl
  | cons piece pieces inductionHypothesis =>
    rw [List.map_cons, merge, inductionHypothesis, List.reverse_cons, List.flatten_append]
    simp

/-- A portion that is written in pieces and flushed is one write and one flush, whatever follows. -/
theorem merge_round {pieces : List Bytes} {portion : Bytes} (whole : pieces.reverse.flatten = portion)
    (given : portion ≠ []) (merged : List SinkEvent) :
    merge (.flushed :: pieces.map .wrote) merged = .wrote portion :: .flushed :: merged := by
  cases pieces with
  | nil => exact absurd whole.symm given
  | cons piece pieces =>
    rw [List.reverse_cons, List.flatten_append, List.flatten_singleton] at whole
    change merge (pieces.map .wrote) (.wrote piece :: .flushed :: merged) = _
    rw [merge_pieces, whole]

/-- The pieces of a write that is not flushed, at the end. -/
theorem merge_share {pieces : List Bytes} {taken : Bytes} (whole : pieces.reverse.flatten = taken)
    (given : ∀ piece ∈ pieces, piece ≠ []) : merge (pieces.map .wrote) [] = share taken := by
  cases pieces with
  | nil =>
    subst whole
    rfl
  | cons piece pieces =>
    have some : taken ≠ [] := by
      subst whole
      simpa using fun _ => given piece List.mem_cons_self
    rw [List.reverse_cons, List.flatten_append, List.flatten_singleton] at whole
    change merge (pieces.map .wrote) [.wrote piece] = _
    rw [merge_pieces, whole, share, if_neg some]

/-- Joining adjacent writes keeps the bytes. -/
theorem written_merge (newer merged : List SinkEvent) :
    written (merge newer merged) = written newer.reverse ++ written merged := by
  fun_induction merge newer merged with
  | case1 merged => rfl
  | case2 bytes older later merged inductionHypothesis =>
    rw [inductionHypothesis, List.reverse_cons, written_append, List.append_assoc]
    simp [written]
  | case3 event older merged single inductionHypothesis =>
    rw [inductionHypothesis, List.reverse_cons, written_append, List.append_assoc, ← written_append [event],
      List.singleton_append]

/-- What a sink has taken in the meantime is what it shows. -/
theorem Shows.accepted {before after : Sink} {events : List SinkEvent} (shows : Shows before after events) :
    after.accepted = before.accepted ++ written events := by
  obtain ⟨fresh, seen, rfl⟩ := shows
  rw [written_merge]
  change written after.seen.reverse = _
  rw [seen, List.reverse_append]
  rw [written_append]
  exact congrArg _ (List.append_nil _).symm

/-! ## Calls -/

/-- Taking within bounds is seen, if anything is taken. -/
theorem absorb_seen {sink after : Sink} {bound : Option Nat} {bytes taken : Bytes}
    (absorbed : sink.absorb bound bytes = (.ok taken, after)) :
    after.seen = share taken ++ sink.seen := by
  unfold absorb at absorbed
  generalize within bound (within sink.room bytes) = part at absorbed
  split at absorbed
  · exact absurd absorbed (by simp)
  · simp only at absorbed
    split at absorbed
    · simp only [Prod.mk.injEq, Except.ok.injEq] at absorbed
      obtain ⟨rfl, rfl⟩ := absorbed
      rfl
    · rename_i given
      simp only [Prod.mk.injEq, Except.ok.injEq] at absorbed
      obtain ⟨rfl, rfl⟩ := absorbed
      rw [share, if_neg (by simpa using given)]
      rfl

/-- So is one write. -/
theorem write_seen {sink after : Sink} {bytes taken : Bytes}
    (written : sink.write bytes = (.ok taken, after)) : after.seen = share taken ++ sink.seen := by
  unfold write at written
  split at written
  · exact absurd written (by simp)
  · exact absurd written (by simp)
  · have absorbed := absorb_seen written
    exact absorbed
  · exact absorb_seen written

/-- A write that fails is not seen. -/
theorem write_failed_seen {sink after : Sink} {bytes : Bytes} {failure : Failure}
    (written : sink.write bytes = (.error failure, after)) : after.seen = sink.seen := by
  unfold write at written
  split at written
  · rw [← (Prod.mk.inj written).2]
  · rw [← (Prod.mk.inj written).2]
  · rw [absorb_failed written]
  · rw [absorb_failed written]

/-- Writing all of the bytes is seen as pieces of them, in order, none of which is empty. They are all of
the bytes exactly if the call succeeds. -/
theorem writeAll_seen (sink : Sink) (bytes : Bytes) :
    ∃ (pieces : List Bytes) (left : Bytes), bytes = pieces.reverse.flatten ++ left ∧ (∀ piece ∈ pieces, piece ≠ []) ∧
      (sink.writeAll bytes).2.seen = pieces.map .wrote ++ sink.seen ∧
      ((sink.writeAll bytes).1 = .ok () ↔ left = []) := by
  fun_induction writeAll sink bytes with
  | case1 sink => exact ⟨[], [], rfl, by simp, rfl, by simp⟩
  | case2 sink first others failure after written retry inductionHypothesis =>
    rwa [write_failed_seen written] at inductionHypothesis
  | case3 sink first others failure after written fatal =>
    exact ⟨[], first :: others, rfl, by simp, write_failed_seen written, by simp⟩
  | case4 sink first others after written =>
    exact ⟨[], first :: others, rfl, by simp, write_seen written, by simp⟩
  | case5 sink first others head taken after written inductionHypothesis =>
    have begins := (write_accepted written).1
    obtain ⟨pieces, left, parts, given, seen, complete⟩ := inductionHypothesis
    obtain ⟨rfl, inside⟩ := List.cons_prefix_cons.mp begins
    refine ⟨pieces ++ [head :: taken], left, ?_, ?_, ?_, complete⟩
    · rw [List.reverse_append, List.reverse_singleton, List.singleton_append, List.flatten_cons,
        List.append_assoc, ← parts, List.cons_append, List.prefix_iff_eq_append.mp inside]
    · intro piece member
      rcases List.mem_append.mp member with earlier | last
      · exact given piece earlier
      · rw [List.mem_singleton.mp last]
        exact List.cons_ne_nil head taken
    · rw [seen, write_seen written, share, if_neg (List.cons_ne_nil head taken), List.map_append,
        List.append_assoc]
      rfl

/-- Flushing is seen if it succeeds. -/
theorem flush_seen (sink : Sink) :
    sink.flush.2.seen = match sink.flush.1 with
      | .ok () => .flushed :: sink.seen
      | .error _ => sink.seen := by
  unfold flush
  split <;> rfl

/-- Delivering one portion is seen as its pieces and a flush, or, if the write or the flush fails, as
pieces of a beginning of the portion. -/
theorem deliver_seen (sink : Sink) (portion : Bytes) :
    ∃ pieces : List Bytes, (∀ piece ∈ pieces, piece ≠ []) ∧ pieces.reverse.flatten <+: portion ∧
      match sink.deliver [portion] with
      | (.ok (), after) => pieces.reverse.flatten = portion ∧
          after.seen = .flushed :: pieces.map .wrote ++ sink.seen
      | (.error _, after) => after.seen = pieces.map .wrote ++ sink.seen := by
  obtain ⟨pieces, left, parts, given, seen, complete⟩ := writeAll_seen sink portion
  refine ⟨pieces, given, ⟨left, parts.symm⟩, ?_⟩
  simp only [deliver, writeEach]
  rcases written : sink.writeAll portion with ⟨failure | _, after⟩
  · rw [written] at seen
    exact seen
  · rw [written] at seen complete
    have all : left = [] := complete.mp rfl
    have flushed := flush_seen after
    simp only at seen ⊢
    rcases ended : after.flush with ⟨failure | _, final⟩
    · rw [ended] at flushed
      exact flushed.trans seen
    · rw [ended] at flushed
      refine ⟨by rw [parts, all, List.append_nil], ?_⟩
      rw [List.cons_append, ← seen]
      exact flushed

/-- Portions that are delivered one after the other are seen as so many rounds of a write and a flush,
whatever follows. -/
theorem deliverEach_seen {sink after : Sink} {portions : List Bytes}
    (given : ∀ portion ∈ portions, portion ≠ [])
    (delivered : sink.deliverEach (portions.map ([·])) = (.ok (), after)) :
    ∃ fresh, after.seen = fresh ++ sink.seen ∧
      ∀ merged, merge fresh merged = rounds portions ++ merged := by
  induction portions generalizing sink with
  | nil =>
    obtain rfl := (Prod.mk.inj delivered).2
    exact ⟨[], rfl, fun merged => rfl⟩
  | cons portion portions inductionHypothesis =>
    obtain ⟨some, others⟩ := List.forall_mem_cons.mp given
    obtain ⟨pieces, _, _, seen⟩ := deliver_seen sink portion
    rw [List.map_cons, deliverEach] at delivered
    rcases one : sink.deliver [portion] with ⟨failure | _, middle⟩
    · rw [one] at delivered
      exact absurd delivered (by simp)
    · rw [one] at delivered seen
      obtain ⟨whole, seen⟩ := seen
      obtain ⟨fresh, later, merges⟩ := inductionHypothesis others delivered
      refine ⟨fresh ++ .flushed :: pieces.map .wrote, ?_, fun merged => ?_⟩
      · rw [later, seen, List.append_assoc]
      · rw [merge_append, merges, merge_round whole some]
        rfl

/-- So a row of delivered portions shows these rounds. -/
theorem shows_rounds {sink after : Sink} {portions : List Bytes} (given : ∀ portion ∈ portions, portion ≠ [])
    (delivered : sink.deliverEach (portions.map ([·])) = (.ok (), after)) :
    sink.Shows after (rounds portions) := by
  obtain ⟨fresh, seen, merges⟩ := deliverEach_seen given delivered
  exact ⟨fresh, seen, (merges []).trans (List.append_nil _)⟩

/-- A portion refused behind such a row adds a beginning of it at most. -/
theorem shows_refused {sink between after : Sink} {portions : List Bytes}
    (given : ∀ portion ∈ portions, portion ≠ [])
    (delivered : sink.deliverEach (portions.map ([·])) = (.ok (), between)) {portion : Bytes} {failure : Failure}
    (failed : between.deliver [portion] = (.error failure, after)) :
    ∃ taken, taken <+: portion ∧ sink.Shows after (rounds portions ++ share taken) := by
  obtain ⟨fresh, earlier, merges⟩ := deliverEach_seen given delivered
  obtain ⟨pieces, some, begins, seen⟩ := deliver_seen between portion
  rw [failed] at seen
  refine ⟨pieces.reverse.flatten, begins, pieces.map .wrote ++ fresh, ?_, ?_⟩
  · rw [List.append_assoc, ← earlier]
    exact seen
  · rw [merge_append, merge_share rfl some, merges]

end LspProxy.Sink
