import LspProxy.Relay.Copy
import LspProxy.Proofs.Frame.Answering
import LspProxy.Proofs.Stream.Trace

/-!
# Nothing read is lost by a copy

A copy takes one arrival of its source after the other. What it has taken falls into the arrivals that it
has got past and the one, if any, at which it has stopped. Every portion among the former has been written
in full and flushed before the next arrival was met, so whatever stops a copy finds all of them on the
other side, and at most a beginning of the portion at which it has stopped.

A cancellation is looked at only where a read begins or is tried again. A read under way may therefore
still get one portion after it, which is passed on like any other, and no second one.

The statements carry the sink along through `Sink.deliverEach`: portion for portion, the sink that a copy
has come to is the one to which the portions so far have been delivered.
-/
namespace LspProxy

namespace Source

/-- The portions of data that a source hands out. Empty data is the end of it, and no portion. -/
def portions (source : Source) : List Bytes :=
  source.filterMap fun arrival =>
    match arrival with
    | .data (first :: others) => some (first :: others)
    | _ => none

theorem portions_append (front back : Source) : portions (front ++ back) = portions front ++ portions back :=
  List.filterMap_append

/-- The portions make up the data. -/
theorem flatten_portions (source : Source) : source.portions.flatten = Source.bytes source := by
  induction source with
  | nil => rfl
  | cons arrival later inductionHypothesis =>
    cases arrival with
    | data bytes =>
      cases bytes with
      | nil => exact inductionHypothesis
      | cons first others => exact congrArg (first :: others ++ ·) inductionHypothesis
    | _ => exact inductionHypothesis

theorem portion_ne_nil {source : Source} : ∀ portion ∈ source.portions, portion ≠ [] := by
  intro portion member
  obtain ⟨arrival, _, same⟩ := List.mem_filterMap.mp member
  split at same
  · rw [← Option.some.inj same]
    exact List.cons_ne_nil _ _
  · exact absurd same (by simp)

end Source

namespace Relay

/-- Passing a portion on is delivering it alone. -/
theorem pass_eq_deliver (sink : Sink) (bytes : Bytes) : pass sink bytes = sink.deliver [bytes] := by
  unfold pass Sink.deliver Sink.writeEach
  rcases sink.writeAll bytes with ⟨failure | _, after⟩ <;> rfl

/-- A copy gets past it: there is data in it, it is a read to make again, or it is no read at all. -/
def Goes : Arrival → Prop
  | .data bytes => bytes ≠ []
  | .failure failure => failure.isInterrupted
  | _ => True

/-- How a copy that has come to this token, this sink and this count comes to stop: at what it meets,
with this left of its source. -/
inductive Stops (token : Token) (sink : Sink) (count : Nat) :
    (met rest : Source) → Except Failure Totals × Sink → Prop where
  /-- There is nothing more to meet, which is the end of the source. -/
  | exhausted : Stops token sink count [] [] (.ok { bytes := count }, sink)
  /-- A read finds the end of the source. -/
  | ended (rest : Source) : Stops token sink count [.data []] rest (.ok { bytes := count }, sink)
  /-- The next read would begin, or be tried again, in a cancelled session. -/
  | cancelled (observed : token.isCancelled) (rest : Source) :
      Stops token sink count [] rest (.ok { ending := .cancelled, bytes := count }, sink)
  /-- A read fails for good. -/
  | unread {failure : Failure} (lasting : ¬ failure.isInterrupted) (rest : Source) :
      Stops token sink count [.failure failure] rest (.error failure, sink)
  /-- The sink does not take a portion, or its flush fails. -/
  | refused {portion : Bytes} {failure : Failure} {after : Sink} (given : portion ≠ [])
      (failed : sink.deliver [portion] = (.error failure, after)) (rest : Source) :
      Stops token sink count [.data portion] rest (.error failure, after)

/-- A run of a copy from a source that falls into what the copy gets past, what it stops at and what is
left. -/
structure Transfer (token : Token) (sink : Sink) (count : Nat) (passed met rest : Source)
    (run : Except Failure Totals × Sink) : Prop where
  /-- Nothing that the copy gets past ends it. -/
  goes : ∀ arrival ∈ passed, Goes arrival
  /-- When it stops, every portion before has been delivered, alone and in order. -/
  stops : ∃ between, sink.deliverEach (passed.portions.map ([·])) = (.ok (), between) ∧
    Stops (token.after passed) between (count + passed.bytes.length) met rest run
  /-- So it has when anything before is met. -/
  meets : ∀ front back, passed ++ met = front ++ back → back ≠ [] →
    ∃ between, sink.deliverEach (front.portions.map ([·])) = (.ok (), between) ∧
      run = copyFrom (token.after front) between (count + front.bytes.length) (back ++ rest)
  /-- At most one portion is met in a cancelled session. -/
  bounded : ∀ front back, passed ++ met = front ++ back → (token.after front).isCancelled →
    back.portions.length ≤ 1

section

variable {token : Token} {sink between : Sink} {count : Nat} {arrival : Arrival} {later passed met rest : Source}
  {run : Except Failure Totals × Sink}

/-- What a copy stops at is one thing, if it is any. -/
theorem Stops.met_length (stops : Stops token sink count met rest run) : met.length ≤ 1 := by
  cases stops <;> simp

/-- A copy that stops where it stands has transferred nothing. -/
theorem Stops.transfer (stops : Stops token sink count met rest run)
    (runs : met ≠ [] → run = copyFrom token sink count (met ++ rest)) :
    Transfer token sink count [] met rest run where
  goes := by simp
  stops := ⟨sink, rfl, stops⟩
  meets front back parts more := by
    cases front with
    | nil =>
      obtain rfl : met = back := parts
      exact ⟨sink, rfl, runs more⟩
    | cons first front =>
      have one := stops.met_length
      rw [show met = first :: front ++ back from parts] at one
      have positive := List.length_pos_iff.mpr more
      simp only [List.cons_append, List.length_cons, List.length_append] at one
      omega
  bounded front back parts _ := by
    have portions : back.portions.length ≤ back.length := List.length_filterMap_le ..
    have whole := congrArg List.length (show met = front ++ back from parts)
    have one := stops.met_length
    rw [List.length_append] at whole
    omega

/-- One thing more to get past, after which the copy is as it is with the rest. -/
theorem Transfer.cons
    (transfer : Transfer (token.meet arrival) between (count + (Source.bytes [arrival]).length) passed met rest run)
    (goes : Goes arrival)
    (runs : run = copyFrom token sink count (arrival :: (passed ++ (met ++ rest))))
    (delivers : sink.deliverEach ((Source.portions [arrival]).map ([·])) = (.ok (), between))
    (single : token.isCancelled → (Source.portions (arrival :: (passed ++ met))).length ≤ 1) :
    Transfer token sink count (arrival :: passed) met rest run := by
  have delivered : ∀ front : Source, sink.deliverEach ((Source.portions (arrival :: front)).map ([·])) =
      between.deliverEach (front.portions.map ([·])) := by
    intro front
    rw [← List.singleton_append, Source.portions_append, List.map_append, Sink.deliverEach_append delivers]
  have counted : ∀ front : Source, count + (Source.bytes (arrival :: front)).length =
      count + (Source.bytes [arrival]).length + front.bytes.length := by
    intro front
    rw [Source.bytes_cons arrival front, List.length_append, Nat.add_assoc]
  refine ⟨List.forall_mem_cons.mpr ⟨goes, transfer.goes⟩, ?stops, ?meets, ?bounded⟩
  case stops =>
    rw [delivered, counted]
    exact transfer.stops
  case meets =>
    intro front back parts more
    cases front with
    | nil =>
      refine ⟨sink, rfl, ?_⟩
      rw [runs, ← List.append_assoc]
      rw [List.nil_append] at parts
      rw [← parts]
      rfl
    | cons first front =>
      obtain ⟨rfl, behind⟩ := List.cons.inj parts
      rw [delivered, counted]
      exact transfer.meets front back behind more
  case bounded =>
    intro front back parts cancelled
    cases front with
    | nil =>
      rw [List.nil_append] at parts
      rw [← parts]
      exact single cancelled
    | cons first front =>
      obtain ⟨rfl, behind⟩ := List.cons.inj parts
      exact transfer.bounded front back behind cancelled

/-- It is not the end of what was laid down that has stopped the copy. -/
def Halted (met : Source) (run : Except Failure Totals × Sink) : Prop :=
  met ≠ [] ∨ ∃ totals, run.1 = .ok totals ∧ totals.ending = .cancelled

/-- How a copy gets through a source: what is left of it might as well be something else. -/
def Transfers (token : Token) (sink : Sink) (count : Nat) (source : Source)
    (run : Except Failure Totals × Sink) : Prop :=
  ∃ passed met rest, source = passed ++ (met ++ rest) ∧
    (∀ other, other = rest ∨ Halted met run → copyFrom token sink count (passed ++ (met ++ other)) = run) ∧
    Transfer token sink count passed met rest run

/-- A copy that gets past something in a session not cancelled, or past the cancellation. -/
theorem Transfers.cons
    (transfers : Transfers (token.meet arrival) between (count + (Source.bytes [arrival]).length) later run)
    (goes : Goes arrival)
    (steps : ∀ later, copyFrom token sink count (arrival :: later) =
      copyFrom (token.meet arrival) between (count + (Source.bytes [arrival]).length) later)
    (delivers : sink.deliverEach ((Source.portions [arrival]).map ([·])) = (.ok (), between))
    (heeds : token.isCancelled → arrival = .cancellation) :
    Transfers token sink count (arrival :: later) run := by
  obtain ⟨passed, met, rest, parts, settled, transfer⟩ := transfers
  refine ⟨arrival :: passed, met, rest, congrArg (arrival :: ·) parts, fun other left => ?_, ?_⟩
  · exact (steps _).trans (settled other left)
  · refine transfer.cons goes ?_ delivers fun cancelled => ?_
    · exact ((steps _).trans (settled rest (Or.inl rfl))).symm
    · obtain rfl := heeds cancelled
      exact transfer.bounded [] (passed ++ met) rfl (Token.meet_isCancelled cancelled .cancellation)

/-- What a copy comes to, with this passed on and stopped at this. If it succeeds, everything it took has
been written and flushed, and counted; it has found the end of its source or a cancelled session. Otherwise a
read or the sink has failed, and that is its failure. If it is a read, it fails for good, and everything taken
before has been written and flushed. If it is the sink, it fails at a portion: everything taken before has been
written and flushed, and of that one a beginning written at most. -/
def Accounts (token : Token) (sink : Sink) (passed met rest : Source) : Except Failure Totals × Sink → Prop
  | (.ok totals, after) =>
    sink.Shows after (Sink.rounds passed.portions) ∧ after.accepted = sink.accepted ++ passed.bytes ∧
      totals.bytes = passed.bytes.length ∧ totals.messages = 0 ∧
      (totals.ending = .exhausted ∧ (met = [.data []] ∨ met = [] ∧ rest = []) ∨
        totals.ending = .cancelled ∧ met = [] ∧ (token.after passed).isCancelled)
  | (.error failure, after) =>
    met = [.failure failure] ∧ ¬ failure.isInterrupted ∧
        sink.Shows after (Sink.rounds passed.portions) ∧ after.accepted = sink.accepted ++ passed.bytes ∨
      ∃ refused taken between, met = [.data refused] ∧ refused ≠ [] ∧ taken <+: refused ∧
        sink.Shows between (Sink.rounds passed.portions) ∧ between.Undelivered refused failure after ∧
        sink.Shows after (Sink.rounds passed.portions ++ Sink.share taken) ∧
        after.accepted = sink.accepted ++ (passed.bytes ++ taken)

/-- Every run that gets through its source comes to this. -/
theorem Transfer.accounts (transfer : Transfer token sink 0 passed met rest run) :
    Accounts token sink passed met rest run := by
  obtain ⟨between, delivered, stops⟩ := transfer.stops
  have given : ∀ portion ∈ passed.portions, portion ≠ [] := Source.portion_ne_nil
  have shows := Sink.shows_rounds given delivered
  have accepted := shows.accepted
  rw [Sink.written_rounds, Source.flatten_portions] at accepted
  rw [Nat.zero_add] at stops
  cases stops with
  | exhausted => exact ⟨shows, accepted, rfl, rfl, Or.inl ⟨rfl, Or.inr ⟨rfl, rfl⟩⟩⟩
  | ended rest => exact ⟨shows, accepted, rfl, rfl, Or.inl ⟨rfl, Or.inl rfl⟩⟩
  | cancelled observed rest => exact ⟨shows, accepted, rfl, rfl, Or.inr ⟨rfl, rfl, observed⟩⟩
  | unread lasting rest => exact Or.inl ⟨rfl, lasting, shows, accepted⟩
  | @refused portion _ _ some failed rest =>
    obtain ⟨taken, begins, partly⟩ := Sink.shows_refused given delivered failed
    refine Or.inr ⟨portion, taken, between, rfl, some, begins, shows, Sink.undelivered_of_deliver failed, partly, ?_⟩
    rw [partly.accepted, Sink.written_append, Sink.written_rounds, Sink.written_share, Source.flatten_portions]

end

end Relay

end LspProxy
