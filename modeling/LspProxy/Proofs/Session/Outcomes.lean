import LspProxy.Proofs.Session.Cleanup
import LspProxy.Proofs.Session.Course

/-!
# Outcomes and their reasons

A session that has returned with an outcome has had a reason for it, and the reason lies in what has
happened, not in what the session says of itself (`outcome_justified`). An exit status is the one with
which the server has ended by itself, learnt by a run that stops no server at all. The loss of the parent
is reported exactly if the watch has asked after the parent in a session that was not cancelled, and the
parent was dead. A session is reported as cancelled only if the run has stopped the server after a
cancellation from outside, so neither the cancellation with which the run ends a session nor that of the
watch is ever taken for one from outside.

What carries this is said for each phase of the run (`Phase.Justified`): what has happened by then that
the outcome will be drawn from. As long as nothing has been stopped, only the watch can have cancelled the
session itself, and then it has found the parent dead, which comes before all else.
-/
namespace LspProxy.Session

/-! ## Reasons -/

/-- A phase in which the run waits for a server that it has stopped. -/
def Phase.awaitsStopped : Phase → Bool
  | .stopping _ | .stoppingLate => true
  | _ => false

/-- The watch is about to ask a question to which the answer will be that the parent is dead. -/
def Monitor.asksInVain (probe : Parent.Probe) (monitor : Monitor) : Prop :=
  ∃ interval parent checks, monitor = .asking interval parent checks ∧ probe.alive checks = false

namespace Moment

/-- The run asks the system to stop the server, and goes on to wait for that. -/
def Stops (moment : Moment) : Prop :=
  moment.before.phase.awaitsStopped = false ∧ moment.after.phase.awaitsStopped = true

/-- The run waits for the server, and learns that it has ended with this status. -/
def Learns (status : ExitStatus) (moment : Moment) : Prop :=
  moment.happening = .turn .run ∧ moment.before.server = .ended status ∧
    moment.after.server = .reaped status

/-- The server ends by itself. -/
def Ends (status : ExitStatus) (moment : Moment) : Prop := moment.happening = .move (.serverEnds status)

/-- The proxy is cancelled from outside. -/
def CancelsOutside (moment : Moment) : Prop := moment.happening = .move .cancels

/-- The watch asks after the parent in a session that is not cancelled, and the parent is dead. -/
def FindsDead (probe : Parent.Probe) (moment : Moment) : Prop :=
  moment.happening = .turn .watch ∧ moment.before.cancelled = false ∧
    moment.before.monitor.asksInVain probe

end Moment

/-- The server has ended by itself with this status, then the run has learnt it, and at no time has it
stopped the server. -/
def LearntFreely (status : ExitStatus) (past : List Moment) : Prop :=
  (∀ moment ∈ past, ¬ moment.Stops) ∧
    ∃ later moment earlier, past = later ++ moment :: earlier ∧ moment.Learns status ∧
      ∃ cause ∈ earlier, cause.Ends status

/-- The proxy has been cancelled from outside, and then the run has stopped the server. -/
def StoppedFromOutside (past : List Moment) : Prop :=
  ∃ later moment earlier, past = later ++ moment :: earlier ∧ moment.Stops ∧
    ∃ cause ∈ earlier, cause.CancelsOutside

theorem LearntFreely.cons {status : ExitStatus} {past : List Moment} {moment : Moment}
    (learnt : LearntFreely status past) (leaves : ¬ moment.Stops) :
    LearntFreely status (moment :: past) := by
  obtain ⟨unstopped, later, learning, earlier, rfl, learns, cause⟩ := learnt
  refine ⟨?_, moment :: later, learning, earlier, rfl, learns, cause⟩
  exact List.forall_mem_cons.mpr ⟨leaves, unstopped⟩

theorem StoppedFromOutside.cons {past : List Moment} (stopped : StoppedFromOutside past)
    (moment : Moment) : StoppedFromOutside (moment :: past) := by
  obtain ⟨later, stop, earlier, rfl, stops, cause⟩ := stopped
  exact ⟨moment :: later, stop, earlier, rfl, stops, cause⟩

/-! ## What each phase rests on -/

/-- What has happened before a run comes to a phase, as far as the outcome will be drawn from it. -/
def Phase.Justified (past : List Moment) (now : Standing) : Phase → Prop
  | .starting | .opening | .draining | .drainingErrors | .drainingInput | .waiting =>
    (∀ moment ∈ past, ¬ moment.Stops) ∧ (now.ownCancelled = true → now.ParentLost)
  | .closing (.exited status) | .concluding (some status) => LearntFreely status past
  | .stopping .cancelled | .closing .cancelled | .stoppingLate | .concluding none =>
    now.ParentLost ∨ StoppedFromOutside past
  | .stopping (.exited _) => False
  | .stopping (.fault _) | .closing (.fault _) | .returned (.error _) => True
  | .returned (.ok (.serverExited status)) => LearntFreely status past ∧ now.Unwatched
  | .returned (.ok .parentExited) => now.ParentLost
  | .returned (.ok .cancelled) => StoppedFromOutside past ∧ now.Unwatched

/-- What is known of a session from what has happened in it. -/
structure Account (probe : Parent.Probe) (past : List Moment) (now : Standing) : Prop where
  phase : now.phase.Justified past now
  /-- A server that has ended and was not stopped has ended by itself. -/
  ended : (∀ moment ∈ past, ¬ moment.Stops) → ∀ status, now.server = .ended status →
    ∃ cause ∈ past, cause.Ends status
  outer : now.outerCancelled = true → ∃ cause ∈ past, cause.CancelsOutside
  probed : now.probe = probe
  /-- The watch ends with the loss of the parent exactly if it has found the parent dead. -/
  lost : now.ParentLost ↔ ∃ moment ∈ past, moment.FindsDead probe

section Steps

variable {now next : Standing} {happening : Happening} {probe : Parent.Probe} {past : List Moment}
  {moment : Moment}

/-! ## One part after the other -/

/-- A watch that goes on has not found the parent dead. -/
theorem Standing.not_parentLost (watching : ∀ verdict, now.monitor ≠ .finished verdict) :
    ¬ now.ParentLost := by
  rintro ⟨parent, lost⟩
  exact watching _ lost

/-- A watch that has ended without the loss of the parent has not lost it. -/
theorem Standing.Unwatched.not_parentLost (unwatched : now.Unwatched) : ¬ now.ParentLost := by
  rintro ⟨parent, lost⟩
  rcases unwatched with absent | ⟨verdict, finished, other⟩
  · exact absurd (absent.symm.trans lost) nofun
  · exact other parent (Monitor.finished.inj (finished.symm.trans lost))

/-- Only a turn of the watch makes a difference to whether the parent is lost. -/
theorem lost_of_same (same : next.monitor = now.monitor) (unwatched : happening ≠ .turn .watch) :
    next.ParentLost ↔ now.ParentLost ∨
      (happening = .turn .watch ∧ now.cancelled = false ∧ now.monitor.asksInVain now.probe) := by
  unfold Standing.ParentLost
  rw [same]
  constructor
  · exact .inl
  · rintro (lost | ⟨watched, _⟩)
    · exact lost
    · exact absurd watched unwatched

/-- A turn in which the watch goes on, or ends in another way, finds nobody dead. -/
theorem lost_of_neither (still : ¬ next.ParentLost) (watching : ∀ verdict, now.monitor ≠ .finished verdict)
    (answered : ¬ now.monitor.asksInVain now.probe) :
    next.ParentLost ↔ now.ParentLost ∨
      (happening = .turn .watch ∧ now.cancelled = false ∧ now.monitor.asksInVain now.probe) := by
  constructor
  · intro lost
    exact absurd lost still
  · rintro (lost | ⟨_, _, vain⟩)
    · exact absurd lost (Standing.not_parentLost watching)
    · exact absurd vain answered

/-- The parent is lost if it was, or if the watch has found it dead just now. -/
theorem Change.lost_iff (change : Change now happening next) :
    next.ParentLost ↔ now.ParentLost ∨
      (happening = .turn .watch ∧ now.cancelled = false ∧ now.monitor.asksInVain now.probe) := by
  cases change with
  | aside unwatched => exact lost_of_same rfl unwatched
  | ends | cancels | onward | fails | exits | abandons | stopped | faulty | closes | closesCancelled
  | finds | givesUp | stoppedLate | returnsLost | returnsExited | returnsCancelled =>
    exact lost_of_same rfl nofun
  | wakes resting =>
    have watching (verdict : Parent.Verdict) : now.monitor ≠ .finished verdict := by simp [resting]
    apply lost_of_neither (by rintro ⟨_, ⟨⟩⟩) watching
    rintro ⟨interval, parent, checks, asking, _⟩
    exact absurd (resting.symm.trans asking) nofun
  | inert fresh | begun fresh =>
    have watching (verdict : Parent.Verdict) : now.monitor ≠ .finished verdict := by simp [fresh]
    apply lost_of_neither (by rintro ⟨_, ⟨⟩⟩) watching
    rintro ⟨interval, parent, checks, asking, _⟩
    exact absurd (fresh.symm.trans asking) nofun
  | stoodDown watching cancelled =>
    constructor
    · rintro ⟨_, ⟨⟩⟩
    · rintro (lost | ⟨_, uncancelled, _⟩)
      · exact absurd lost (Standing.not_parentLost watching)
      · exact absurd (cancelled.symm.trans uncancelled) nofun
  | alive wake asking uncancelled answer =>
    have watching (verdict : Parent.Verdict) : now.monitor ≠ .finished verdict := by simp [asking]
    apply lost_of_neither (by rintro ⟨_, ⟨⟩⟩) watching
    rintro ⟨interval, parent, checks, same, dead⟩
    obtain ⟨_, _, rfl⟩ := Monitor.asking.inj (asking.symm.trans same)
    exact absurd (answer.symm.trans dead) nofun
  | dead asking uncancelled answer =>
    constructor
    · intro _
      exact .inr ⟨rfl, uncancelled, _, _, _, asking, answer⟩
    · intro _
      exact ⟨_, rfl⟩

/-- A watch that there is not, or that has ended, does not find the parent dead any more. -/
theorem Change.unwatched (change : Change now happening next) (unwatched : now.Unwatched) :
    next.Unwatched := by
  have ended (watching : ∀ verdict, now.monitor ≠ .finished verdict) (present : now.monitor ≠ .absent) :
      False := by
    rcases unwatched with absent | ⟨verdict, finished, _⟩
    · exact present absent
    · exact watching verdict finished
  cases change with
  | aside | ends | cancels | onward | fails | exits | abandons | stopped | faulty | closes
  | closesCancelled | finds | givesUp | stoppedLate | returnsLost | returnsExited | returnsCancelled =>
    exact unwatched
  | wakes monitor | inert monitor | begun monitor | alive _ monitor | dead monitor =>
    exact (ended (by simp [monitor]) (by simp [monitor])).elim
  | stoodDown => exact .inr ⟨.cancelled, rfl, nofun⟩

/-- Nothing changes what the system says of the parent. -/
theorem Change.probe_eq (change : Change now happening next) : next.probe = now.probe := by
  cases change <;> rfl

/-- Only a cancellation from outside is one from outside. -/
theorem Change.outerCancelled (change : Change now happening next) (outer : next.outerCancelled = true) :
    now.outerCancelled = true ∨ happening = .move .cancels := by
  cases change with
  | cancels => exact .inr rfl
  | _ => exact .inl outer

/-- A server that has ended has done so before, or by itself, or because the run has stopped it. -/
theorem Change.ended (change : Change now happening next) {status : ExitStatus}
    (ended : next.server = .ended status) :
    now.server = .ended status ∨ happening = .move (.serverEnds status) ∨
      (now.phase.awaitsStopped = false ∧ next.phase.awaitsStopped = true) := by
  cases change with
  | ends status' running =>
    obtain rfl := Server.ended.inj ended
    exact .inr (.inl rfl)
  | fails fault from' | abandons from' | givesUp from' =>
    refine .inr (.inr ⟨?_, rfl⟩)
    rw [from']
    rfl
  | exits | stopped | finds | stoppedLate => exact absurd ended nofun
  | _ => exact .inl ended

/-- The phases of a connected session rest on the same. -/
theorem Phase.Onward.justified {phase reached : Phase} (goes : phase.Onward reached)
    (justified : phase.Justified past now) : reached.Justified past now := by
  cases goes <;> exact justified

/-- In none of them the run waits for a server that it has stopped. -/
theorem Phase.Onward.calm {phase reached : Phase} (goes : phase.Onward reached) :
    reached.awaitsStopped = false := by
  cases goes <;> rfl

/-- A run that goes on to wait for a stopped server has stopped it, unless it had ended before. -/
theorem Change.stops (change : Change now happening next) (calm : now.phase.awaitsStopped = false)
    (waits : next.phase.awaitsStopped = true) :
    (happening = .turn .run ∨ happening = .turn .giveUp) ∧ next.server = now.server.stopped := by
  cases change with
  | fails | abandons => exact ⟨.inl rfl, rfl⟩
  | givesUp => exact ⟨.inr rfl, rfl⟩
  | onward goes => exact absurd (goes.calm.symm.trans waits) nofun
  | exits | stopped | faulty | closes | closesCancelled | finds | stoppedLate | returnsLost
  | returnsExited | returnsCancelled => exact absurd waits nofun
  | _ => exact absurd (calm.symm.trans waits) nofun

/-- A phase that the run does not leave by stopping the server rests on what it has rested on. -/
theorem Phase.Justified.kept {phase : Phase} (justified : phase.Justified past now)
    (leaves : ¬ moment.Stops) (lost : now.ParentLost → next.ParentLost)
    (unwatched : now.Unwatched → next.Unwatched)
    (own : next.ownCancelled = true → now.ownCancelled = true ∨ next.ParentLost) :
    phase.Justified (moment :: past) next := by
  have unstopped (before : ∀ moment ∈ past, ¬ moment.Stops) :
      ∀ other ∈ moment :: past, ¬ other.Stops := List.forall_mem_cons.mpr ⟨leaves, before⟩
  have early (before : (∀ moment ∈ past, ¬ moment.Stops) ∧ (now.ownCancelled = true → now.ParentLost)) :
      (∀ other ∈ moment :: past, ¬ other.Stops) ∧ (next.ownCancelled = true → next.ParentLost) := by
    refine ⟨unstopped before.1, ?_⟩
    intro cancelled
    rcases own cancelled with cancelled | found
    · exact lost (before.2 cancelled)
    · exact found
  have stopped (before : now.ParentLost ∨ StoppedFromOutside past) :
      next.ParentLost ∨ StoppedFromOutside (moment :: past) :=
    before.imp lost fun stopped => stopped.cons moment
  match phase with
  | .starting | .opening | .draining | .drainingErrors | .drainingInput | .waiting =>
    exact early justified
  | .closing (.exited status) | .concluding (some status) =>
    exact LearntFreely.cons justified leaves
  | .stopping .cancelled | .closing .cancelled | .stoppingLate | .concluding none =>
    exact stopped justified
  | .stopping (.exited _) => exact justified
  | .stopping (.fault _) | .closing (.fault _) | .returned (.error _) => exact trivial
  | .returned (.ok (.serverExited status)) => exact ⟨justified.1.cons leaves, unwatched justified.2⟩
  | .returned (.ok .parentExited) => exact lost justified
  | .returned (.ok .cancelled) => exact ⟨justified.1.cons moment, unwatched justified.2⟩

/-- Each phase of the run has its reason in what has happened when it is entered, and keeps it. -/
theorem Account.justified (account : Account probe past now) (before : moment.before.standing = now)
    (after : moment.after.standing = next) (change : Change now moment.happening next) :
    next.phase.Justified (moment :: past) next := by
  obtain ⟨first, happening, last⟩ := moment
  have phase : first.phase = now.phase := congrArg Standing.phase before
  have phase' : last.phase = next.phase := congrArg Standing.phase after
  have server : first.server = now.server := congrArg Standing.server before
  have server' : last.server = next.server := congrArg Standing.server after
  have lost : now.ParentLost → next.ParentLost := fun lost => change.lost_iff.mpr (.inl lost)
  have unwatched := change.unwatched
  have justified := account.phase
  have stops : Moment.Stops ⟨first, happening, last⟩ ↔
      now.phase.awaitsStopped = false ∧ next.phase.awaitsStopped = true := by
    rw [← phase, ← phase']
    exact Iff.rfl
  -- the run stops nothing on its way into a phase in which it does not wait for a stopped server
  have calm (calm : next.phase.awaitsStopped = false) : ¬ Moment.Stops ⟨first, happening, last⟩ := by
    rw [stops, calm]
    simp
  have resumed (waited : now.phase.awaitsStopped = next.phase.awaitsStopped) :
      ¬ Moment.Stops ⟨first, happening, last⟩ := by
    rw [stops, waited]
    simp
  -- early in the run, a cancelled session has been cancelled from outside or has lost its parent
  have stopped (early : now.ownCancelled = true → now.ParentLost) (cancelled : now.cancelled = true)
      (stopping : Moment.Stops ⟨first, happening, last⟩) :
      now.ParentLost ∨ StoppedFromOutside (⟨first, happening, last⟩ :: past) := by
    rcases Bool.or_eq_true _ _ ▸ cancelled with outer | own
    · exact .inr ⟨[], _, past, rfl, stopping, account.outer outer⟩
    · exact .inl (early own)
  -- a run that learns the status of a server that it has not stopped
  have learnt (unstopped : ∀ moment ∈ past, ¬ moment.Stops) {status : ExitStatus}
      (turn : happening = .turn .run) (ended : now.server = .ended status)
      (reaped : next.server = .reaped status) (leaves : next.phase.awaitsStopped = false) :
      LearntFreely status (⟨first, happening, last⟩ :: past) := by
    refine ⟨List.forall_mem_cons.mpr ⟨calm leaves, unstopped⟩, [], _, past, rfl, ?_,
      account.ended unstopped status ended⟩
    exact ⟨turn, server.trans ended, server'.trans reaped⟩
  change next.phase.Justified (⟨first, happening, last⟩ :: past) next
  cases change with
  | aside | ends | cancels | inert | begun | stoodDown | alive | wakes =>
    exact justified.kept (resumed rfl) lost unwatched .inl
  | dead => exact justified.kept (resumed rfl) lost unwatched fun _ => .inr ⟨_, rfl⟩
  | onward goes => exact (goes.justified justified).kept (calm goes.calm) lost unwatched .inl
  | fails => exact trivial
  | exits starting ended =>
    rw [starting] at justified
    exact learnt justified.1 rfl ended rfl rfl
  | abandons starting cancelled =>
    rw [starting] at justified
    exact stopped justified.2 cancelled (stops.mpr ⟨congrArg _ starting, rfl⟩)
  | @stopped setback status stopping =>
    rw [stopping] at justified
    cases setback with
    | fault => exact trivial
    | exited => exact justified.elim
    | cancelled => exact justified.imp lost fun stopped => stopped.cons _
  | faulty => exact trivial
  | closes closing =>
    rw [closing] at justified
    exact justified.cons (calm rfl)
  | closesCancelled closing =>
    rw [closing] at justified
    exact justified.imp lost fun stopped => stopped.cons _
  | finds waiting ended =>
    rw [waiting] at justified
    exact learnt justified.1 rfl ended rfl rfl
  | givesUp waiting cancelled =>
    rw [waiting] at justified
    exact stopped justified.2 cancelled (stops.mpr ⟨congrArg _ waiting, rfl⟩)
  | stoppedLate status stopping =>
    rw [stopping] at justified
    exact justified.imp lost fun stopped => stopped.cons _
  | returnsLost concluding found => exact found
  | returnsExited concluding ended =>
    rw [concluding] at justified
    exact ⟨justified.cons (calm rfl), ended⟩
  | returnsCancelled concluding ended =>
    rw [concluding] at justified
    rcases justified with found | stopped
    · exact absurd found ended.not_parentLost
    · exact ⟨stopped.cons _, ended⟩

/-- What is known of a session is known after whatever happens next. -/
theorem Account.step {state after : State} (account : Account probe past state.standing)
    (performed : state.perform happening = some after) :
    Account probe (⟨state, happening, after⟩ :: past) after.standing where
  phase := account.justified rfl rfl (State.perform_change performed)
  ended := by
    intro unstopped status ended
    obtain ⟨leaves, before⟩ := List.forall_mem_cons.mp unstopped
    rcases (State.perform_change performed).ended ended with same | endsNow | stops
    · obtain ⟨cause, earlier, ends⟩ := account.ended before status same
      exact ⟨cause, List.mem_cons_of_mem _ earlier, ends⟩
    · exact ⟨_, List.mem_cons_self, endsNow⟩
    · exact absurd stops leaves
  outer := by
    intro outer
    rcases (State.perform_change performed).outerCancelled outer with same | cancels
    · obtain ⟨cause, earlier, cancels⟩ := account.outer same
      exact ⟨cause, List.mem_cons_of_mem _ earlier, cancels⟩
    · exact ⟨_, List.mem_cons_self, cancels⟩
  probed := (State.perform_change performed).probe_eq.trans account.probed
  lost := by
    have same : state.standing.probe = probe := account.probed
    rw [(State.perform_change performed).lost_iff, account.lost, same]
    constructor
    · rintro (⟨moment, earlier, found⟩ | found)
      · exact ⟨moment, List.mem_cons_of_mem _ earlier, found⟩
      · exact ⟨_, List.mem_cons_self, found⟩
    · rintro ⟨moment, among, found⟩
      rcases List.mem_cons.mp among with rfl | earlier
      · exact .inr found
      · exact .inl ⟨moment, earlier, found⟩

end Steps

/-! ## Whole courses -/

/-- A session at its start, as far as its outcome depends on it. -/
def Beginning.standing (beginning : Beginning) : Standing where
  phase := .starting
  server := .running
  ownCancelled := false
  outerCancelled := false
  monitor := match beginning.settings.parentInterval with
    | some interval => .fresh interval
    | none => .absent
  probe := beginning.probe

/-- What is known of a session at its start. -/
theorem Account.start (beginning : Beginning) : Account beginning.probe [] beginning.standing where
  phase := by
    constructor
    · intro moment among
      exact absurd among List.not_mem_nil
    · intro cancelled
      exact absurd cancelled Bool.false_ne_true
  ended := by
    intro _ status ended
    exact absurd ended nofun
  outer := by
    intro cancelled
    exact absurd cancelled Bool.false_ne_true
  probed := rfl
  lost := by
    constructor
    · rintro ⟨parent, lost⟩
      unfold Beginning.standing at lost
      split at lost <;> exact absurd lost nofun
    · rintro ⟨moment, among, _⟩
      exact absurd among List.not_mem_nil

/-- What is known of a session after everything that has happened in it. -/
theorem course_account {beginning : Beginning} {state after : State} {disk : Disk}
    {past : List Moment} (started : (Session.start beginning).value = (.ok state, disk))
    (course : Course state past after) : Account beginning.probe past after.standing := by
  obtain ⟨_, _, begun⟩ := start_value beginning
  rw [started] at begun
  obtain ⟨prepared, _, rfl⟩ := begun
  induction course with
  | start => exact .start beginning
  | step _ happening performed inductionHypothesis => exact inductionHypothesis.step performed

/-- The outcome with which a run returns is justified by what has happened, whatever that was. An exit
status is that of a server that has ended by itself, learnt by a run that stops no server, and the parent
was not found dead then. The loss of the parent is reported exactly if the watch has ended with it, and
so exactly if it has asked after the parent in a session that was not cancelled, and the parent was dead.
And a session that is reported as cancelled has been cancelled from outside before the run stopped its
server. -/
theorem outcome_justified (beginning : Beginning) {state after : State} {disk : Disk}
    {past : List Moment} {outcome : Outcome}
    (started : (start beginning).value = (.ok state, disk)) (course : Course state past after)
    (returned : after.phase = .returned (.ok outcome)) :
    (∀ status, outcome = .serverExited status →
      LearntFreely status past ∧ ¬ after.standing.ParentLost) ∧
    (outcome = .parentExited ↔ after.standing.ParentLost) ∧
    (after.standing.ParentLost ↔ ∃ moment ∈ past, moment.FindsDead beginning.probe) ∧
    (outcome = .cancelled → StoppedFromOutside past ∧ ¬ after.standing.ParentLost) := by
  have account := course_account started course
  have justified := account.phase
  rw [show after.standing.phase = .returned (.ok outcome) from returned] at justified
  cases outcome with
  | serverExited status =>
    obtain ⟨learnt, unwatched⟩ := justified
    have kept := unwatched.not_parentLost
    refine ⟨?_, ?_, account.lost, nofun⟩
    · rintro _ ⟨⟩
      exact ⟨learnt, kept⟩
    · exact ⟨nofun, fun lost => absurd lost kept⟩
  | parentExited => exact ⟨nofun, ⟨fun _ => justified, fun _ => rfl⟩, account.lost, nofun⟩
  | cancelled =>
    obtain ⟨stopped, unwatched⟩ := justified
    have kept := unwatched.not_parentLost
    exact ⟨nofun, ⟨nofun, fun lost => absurd lost kept⟩, account.lost, fun _ => ⟨stopped, kept⟩⟩

/-- The session over a channel whose server ends before it is connected, and which is cancelled from
outside before it has returned: what is reported is the exit, which came first. -/
theorem exit_outlasts_cancellation :
    ∃ state disk past after, (start equipped).value = (.ok state, disk) ∧ Course state past after ∧
      after.phase = .returned (.ok (.serverExited (.ofCode 3))) ∧
      LearntFreely (.ofCode 3) past ∧ (∃ moment ∈ past, moment.CancelsOutside) := by
  have starts : (match (start equipped).value.1 with | .ok _ => true | .error _ => false) = true := by
    cbv
  obtain ⟨_, _, begun⟩ := start_value equipped
  rcases started : (start equipped).value with ⟨fault | state, disk⟩
  · rw [started] at starts
    exact absurd starts Bool.false_ne_true
  · rw [started] at begun
    obtain ⟨prepared, prepares, rfl⟩ := begun
    cases prepared with
    | standard => exact absurd prepares (by simp : Endpoint.named "c" ≠ .standard)
    | listening listener =>
      let start := equipped.state (.listening listener) disk
      obtain ⟨closing, silent, concluding, after, learnt, silenced, concluded, returned, phase⟩ :
          ∃ closing silent concluding after,
            State.advance { start with server := .ended (.ofCode 3) } .run = some closing ∧
            State.advance { closing with errors := closing.errors.hangUp } .errorRelay = some silent ∧
            State.advance { silent with outerCancelled := true } .run = some concluding ∧
            concluding.advance .run = some after ∧
            after.phase = .returned (.ok (.serverExited (.ofCode 3))) :=
        ⟨_, _, _, _, rfl, rfl, rfl, rfl, rfl⟩
      have course := (Course.start : Course start [] start)
        |>.step (.move (.serverEnds (.ofCode 3))) rfl
        |>.step (.turn .run) learnt
        |>.step (.move .serverFallsSilent) rfl
        |>.step (.turn .errorRelay) silenced
        |>.step (.move .cancels) rfl
        |>.step (.turn .run) concluded
        |>.step (.turn .run) returned
      obtain ⟨exited, _⟩ := outcome_justified equipped started course phase
      refine ⟨start, disk, _, after, rfl, course, phase, (exited _ rfl).1,
        ⟨silent, .move .cancels, { silent with outerCancelled := true }⟩, ?_, rfl⟩
      exact .tail _ (.tail _ (.head _))

end LspProxy.Session
