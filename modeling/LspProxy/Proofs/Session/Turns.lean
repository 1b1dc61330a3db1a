import LspProxy.Session.Step

/-!
# What a turn does

Each task of a session changes few things: a relay moves itself and its streams, the watch moves itself
and may cancel the session. These laws say for each task what its turn has found and what it has done, so
that nothing below has to look into a turn again.
-/
namespace LspProxy.Session

/-- A copy that has ended. -/
def Copying.isFinished : Copying → Bool
  | .finished _ => true
  | .running _ => false

/-- Only a copy under way has a turn, and a cancelled one ends with it. -/
theorem Copying.advance_cases {cancelled : Bool} {relay next : Copying} {pipe pipe' : Pipe}
    {sink sink' : Sink} (turn : relay.advance cancelled pipe sink = some (next, pipe', sink')) :
    (∃ count, relay = .running count) ∧ (cancelled = true → next.isFinished = true) := by
  cases relay with
  | finished result => exact absurd turn (by simp [advance])
  | running count =>
    refine ⟨⟨count, rfl⟩, ?_⟩
    rintro rfl
    simp only [advance, if_true, Option.some.injEq, Prod.mk.injEq] at turn
    rw [← turn.1]
    rfl

/-- The turns that a watch still has once the session is cancelled. -/
def Monitor.turnsLeft : Monitor → Nat
  | .absent | .finished _ => 0
  | .asking _ _ _ => 1
  | .fresh _ | .resting _ _ _ _ => 2

namespace State

variable {state after : State}

/-- No reports change nothing. -/
theorem add_nil (state : State) : state.add [] = state := by simp [add]

/-- A turn of the output relay. -/
theorem copyOutput_cases (turn : state.copyOutput = some after) :
    ∃ count relay fromServer clientOutput, state.outputRelay = some (.running count) ∧
      (state.cancelled = true → relay.isFinished = true) ∧
      after = closeStreams { state with outputRelay := some relay, fromServer, clientOutput } := by
  unfold copyOutput at turn
  cases started : state.outputRelay with
  | none => simp [started] at turn
  | some relay =>
    simp only [started, Option.bind_eq_bind, Option.bind_some] at turn
    cases advanced : relay.advance state.cancelled state.fromServer state.clientOutput with
    | none => simp [advanced] at turn
    | some next =>
      obtain ⟨next, fromServer, clientOutput⟩ := next
      simp only [advanced, Option.bind_some, Option.pure_def, Option.some.injEq] at turn
      obtain ⟨⟨count, rfl⟩, ends⟩ := Copying.advance_cases advanced
      exact ⟨count, next, fromServer, clientOutput, rfl, ends, turn.symm⟩

/-- A turn of the relay of the error output. -/
theorem copyErrors_cases (turn : state.copyErrors = some after) :
    ∃ count relay errors clientErrors, state.errorRelay = .running count ∧
      (state.cancelled = true → relay.isFinished = true) ∧
      after = { state with errorRelay := relay, errors, clientErrors } := by
  unfold copyErrors at turn
  cases advanced : state.errorRelay.advance state.cancelled state.errors state.clientErrors with
  | none => simp [advanced] at turn
  | some next =>
    obtain ⟨next, errors, clientErrors⟩ := next
    simp only [advanced, Option.bind_eq_bind, Option.bind_some, Option.pure_def,
      Option.some.injEq] at turn
    obtain ⟨⟨count, running⟩, ends⟩ := Copying.advance_cases advanced
    exact ⟨count, next, _, clientErrors, running, ends, turn.symm⟩

/-- A turn of the relay of the client's messages that reads: a cancelled one ends the relay. -/
theorem readMessage_cases {forwarder : Forwarder} (turn : state.readMessage forwarder = some after) :
    (state.inputCancelled = true ∧ after = state.putForwarder (forwarder.finish .cancelled)) ∨
      (state.inputCancelled = false ∧ ∃ client events next,
        after = ({ state with client }.add events).putForwarder next) := by
  unfold readMessage at turn
  split at turn
  · rename_i cancelled
    exact .inl ⟨cancelled, (Option.some.inj turn).symm⟩
  · rename_i active
    refine .inr ⟨Bool.eq_false_iff.mpr active, ?_⟩
    simp only at turn
    split at turn
    · split at turn
      · exact absurd turn (by simp)
      · exact ⟨_, [], _, by rw [add_nil]; exact (Option.some.inj turn).symm⟩
    · exact ⟨_, [], _, by rw [add_nil]; exact (Option.some.inj turn).symm⟩
    · rename_i residual found
      cases residual with
      | zero => exact ⟨_, [], _, by rw [add_nil]; exact (Option.some.inj turn).symm⟩
      | succ residual => exact ⟨_, _, _, (Option.some.inj turn).symm⟩
    · exact ⟨_, _, _, (Option.some.inj turn).symm⟩

/-- A turn of that relay that writes: the pipe has refused, has taken a part, or has taken the rest of
the frame. -/
theorem sendBatch_cases {forwarder : Forwarder} {batch : Batch}
    (turn : state.sendBatch forwarder batch = some after) :
    ∃ toServer disk events next,
      after = ({ state with toServer, disk }.add events).putForwarder next ∧
      ((∃ failure, state.toServer.push batch.rest = (.refused failure, toServer) ∧
          next.stage = .finished (.error failure)) ∨
        (∃ rest, state.toServer.push batch.rest = (.taken rest, toServer) ∧ rest ≠ [] ∧
          next.stage = .sending { batch with rest }) ∨
        (state.toServer.push batch.rest = (.taken [], toServer) ∧
          next.stage = match batch.next with
            | some later => .sending later
            | none => .reading)) := by
  unfold sendBatch at turn
  split at turn
  · exact absurd turn (by simp)
  · rename_i failure toServer pushed
    refine ⟨toServer, state.disk, [], { forwarder with stage := .finished (.error failure) }, ?_,
      .inl ⟨failure, pushed, rfl⟩⟩
    rw [add_nil]
    exact (Option.some.inj turn).symm
  · rename_i first others toServer pushed
    refine ⟨toServer, state.disk, [], { forwarder with stage := .sending { batch with
      rest := first :: others } }, ?_, .inr (.inl ⟨first :: others, pushed, by simp, rfl⟩)⟩
    rw [add_nil]
    exact (Option.some.inj turn).symm
  · rename_i toServer pushed
    refine ⟨toServer, _, _, _, (Option.some.inj turn).symm, .inr (.inr ⟨pushed, ?_⟩)⟩
    cases batch.next <;> rfl

/-- A turn of the relay of the client's messages reads or writes. -/
theorem forward_cases (turn : state.forward = some after) :
    ∃ forwarder, state.inputRelay = some forwarder ∧
      ((forwarder.stage = .reading ∧ state.readMessage forwarder = some after) ∨
        ∃ batch, forwarder.stage = .sending batch ∧ state.sendBatch forwarder batch = some after) := by
  unfold forward at turn
  cases started : state.inputRelay with
  | none => simp [started] at turn
  | some forwarder =>
    simp only [started, Option.bind_eq_bind, Option.bind_some] at turn
    refine ⟨forwarder, rfl, ?_⟩
    split at turn
    · rename_i reading
      exact .inl ⟨reading, turn⟩
    · rename_i batch sending
      exact .inr ⟨batch, sending, turn⟩
    · exact absurd turn (by simp)

/-- A turn of the watch or the end of its wait: it moves on, and the session stays cancelled if it was,
which a watch ends with at once, or after one more question that it does not ask any more. -/
theorem watch_cases (turn : state.watch = some after) :
    ∃ events monitor ownCancelled, after = { state.add events with monitor, ownCancelled } ∧
      (state.ownCancelled = true → ownCancelled = true) ∧
      (state.cancelled = true → monitor.turnsLeft < state.monitor.turnsLeft) := by
  unfold watch at turn
  split at turn
  · exact absurd turn (by simp)
  · exact absurd turn (by simp)
  · rename_i interval fresh
    refine ⟨_, _, state.ownCancelled, (Option.some.inj turn).symm, id, fun _ => ?_⟩
    rw [fresh]
    split <;> simp [Monitor.turnsLeft]
  · rename_i interval parent checks asking
    simp only at turn
    rw [asking]
    cases cancelled : state.cancelled with
    | true =>
      simp only [cancelled, Parent.look, if_true, Log.Logged.value_pure] at turn
      exact ⟨_, _, state.ownCancelled, (Option.some.inj turn).symm, id,
        fun _ => by simp [Monitor.turnsLeft]⟩
    | false =>
      split at turn
      · exact ⟨_, _, state.ownCancelled, (Option.some.inj turn).symm, id, by simp⟩
      · exact ⟨_, _, true, (Option.some.inj turn).symm, fun _ => rfl, by simp⟩
      · exact ⟨_, _, state.ownCancelled, (Option.some.inj turn).symm, id, by simp⟩
  · rename_i resting
    split at turn
    · refine ⟨_, _, state.ownCancelled, (Option.some.inj turn).symm, id, fun _ => ?_⟩
      rw [resting]
      simp [Monitor.turnsLeft]
    · exact absurd turn (by simp)

/-- The end of a wait of the watch. -/
theorem wake_cases (turn : state.wake = some after) :
    ∃ monitor, after = { state with monitor } ∧ monitor.turnsLeft < state.monitor.turnsLeft := by
  unfold wake at turn
  split at turn
  · rename_i resting
    split at turn
    · refine ⟨_, (Option.some.inj turn).symm, ?_⟩
      rw [resting]
      simp [Monitor.turnsLeft]
    · exact absurd turn (by simp)
  · exact absurd turn (by simp)

end State

end LspProxy.Session
