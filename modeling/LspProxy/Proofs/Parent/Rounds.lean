import LspProxy.Parent.Watch

/-!
# Watches and the turns they meet

Whether a turn ends a watch is a matter of the turns alone: of what others have done up to it, what the
parent answers in it, and how its wait ends (`Turn.Passes`). A watch lasts through turns that pass, one after
the other, and comes to the first that does not (`Comes`), which is one turn at most (`Comes.unique`).

That turn decides everything about the watch, its verdict, its record and the session that it leaves
(`Outcome`). In the record each turn has a part of its own, with the answer that the parent gives in it and
with the acts of others where they happen.
-/
namespace LspProxy.Parent

/-- Others cancel the session before the wait is over. -/
def Wait.interferes : Wait → Bool
  | .elapsed late => late
  | .cancelled _ => true

/-- Others cancel the session at some moment of the turn. -/
def Turn.interferes (turn : Turn) : Bool := turn.early || turn.meanwhile || turn.wait.interferes

/-- The session is cancelled when the turn looks at it, with these turns before. -/
def foundCancelled (beforehand : Bool) (earlier : List Turn) (turn : Turn) : Bool :=
  beforehand || earlier.any Turn.interferes || turn.early

/-- The turn gives no reason to end the watch, with these turns before it: the session is not found cancelled,
the parent is alive, and the interval goes by. -/
structure Turn.Passes (beforehand : Bool) (earlier : List Turn) (turn : Turn) : Prop where
  clear : foundCancelled beforehand earlier turn = false
  alive : turn.alive = true
  elapses : ∃ late, turn.wait = .elapsed late

/-- None of the turns ends the watch. -/
def Lasts (beforehand : Bool) (turns : List Turn) : Prop :=
  ∀ earlier turn later, turns = earlier ++ turn :: later → turn.Passes beforehand earlier

/-- The watch comes to this turn, after these. -/
structure Comes (beforehand : Bool) (turns earlier : List Turn) (turn : Turn) : Prop where
  parts : ∃ later, turns = earlier ++ turn :: later
  lasts : Lasts beforehand earlier

section

variable {beforehand : Bool} {turns earlier earlier' later : List Turn} {turn turn' first : Turn}

theorem not_passes_of_found (found : foundCancelled beforehand earlier turn = true) :
    ¬turn.Passes beforehand earlier :=
  fun passes => absurd (found.symm.trans passes.clear) nofun

theorem not_passes_of_dead (dead : turn.alive = false) : ¬turn.Passes beforehand earlier :=
  fun passes => absurd (dead.symm.trans passes.alive) nofun

theorem not_passes_of_roused {time : Duration} (wait : turn.wait = .cancelled time) :
    ¬turn.Passes beforehand earlier := by
  rintro ⟨_, _, late, elapses⟩
  exact absurd (wait.symm.trans elapses) nofun

/-- What has come of the first turn is there beforehand for those behind it. -/
theorem foundCancelled_cons (beforehand : Bool) (first : Turn) (earlier : List Turn) (turn : Turn) :
    foundCancelled beforehand (first :: earlier) turn =
      foundCancelled (beforehand || first.interferes) earlier turn := by
  simp only [foundCancelled, List.any_cons, Bool.or_assoc]

theorem passes_cons :
    turn.Passes beforehand (first :: earlier) ↔ turn.Passes (beforehand || first.interferes) earlier := by
  constructor
  · rintro ⟨clear, alive, elapses⟩
    exact ⟨foundCancelled_cons .. ▸ clear, alive, elapses⟩
  · rintro ⟨clear, alive, elapses⟩
    exact ⟨(foundCancelled_cons ..).trans clear, alive, elapses⟩

theorem lasts_nil : Lasts beforehand [] := fun _ _ _ parts => absurd parts (by simp)

theorem lasts_cons :
    Lasts beforehand (first :: later) ↔
      first.Passes beforehand [] ∧ Lasts (beforehand || first.interferes) later := by
  constructor
  · intro lasts
    refine ⟨lasts [] first later rfl, fun earlier turn rest parts => ?_⟩
    exact passes_cons.mp (lasts (first :: earlier) turn rest (congrArg (first :: ·) parts))
  · rintro ⟨passes, lasts⟩ earlier turn rest parts
    cases earlier with
    | nil =>
      obtain ⟨rfl, _⟩ := List.cons.inj parts
      exact passes
    | cons _ earlier =>
      obtain ⟨rfl, behind⟩ := List.cons.inj parts
      exact passes_cons.mpr (lasts earlier turn rest behind)

theorem Lasts.of_append (lasts : Lasts beforehand (earlier ++ later)) : Lasts beforehand earlier := by
  rintro front turn back rfl
  exact lasts front turn (back ++ later) (by simp)

theorem comes_first : Comes beforehand (turn :: later) [] turn := ⟨⟨later, rfl⟩, lasts_nil⟩

theorem Comes.cons (comes : Comes (beforehand || first.interferes) turns earlier turn)
    (passes : first.Passes beforehand []) : Comes beforehand (first :: turns) (first :: earlier) turn := by
  obtain ⟨⟨later, rfl⟩, lasts⟩ := comes
  exact ⟨⟨later, rfl⟩, lasts_cons.mpr ⟨passes, lasts⟩⟩

/-- A watch that lasts passes every turn that it comes to. -/
theorem Comes.passes_of_lasts (comes : Comes beforehand turns earlier turn) (lasts : Lasts beforehand turns) :
    turn.Passes beforehand earlier := by
  obtain ⟨⟨later, parts⟩, _⟩ := comes
  exact lasts earlier turn later parts

/-- Where a turn stands to the one that ends the watch. -/
theorem Comes.compare (comes : Comes beforehand turns earlier turn) (ends : ¬turn.Passes beforehand earlier)
    (parts : turns = earlier' ++ turn' :: later) :
    earlier'.length < earlier.length ∧ Lasts beforehand earlier' ∧ turn'.Passes beforehand earlier' ∨
      earlier' = earlier ∧ turn' = turn ∨ earlier.length < earlier'.length ∧ ¬Lasts beforehand earlier' := by
  obtain ⟨⟨rest, rfl⟩, lasts⟩ := comes
  rcases List.append_eq_append_iff.mp parts with ⟨between, rfl, same⟩ | ⟨between, rfl, same⟩
  · cases between with
    | nil => exact .inr (.inl ⟨List.append_nil _, (List.cons.inj same).1.symm⟩)
    | cons _ between =>
      obtain ⟨rfl, _⟩ := List.cons.inj same
      exact .inr (.inr ⟨by simp, fun lasts' => ends (lasts' earlier turn between rfl)⟩)
  · cases between with
    | nil => exact .inr (.inl ⟨(List.append_nil _).symm, (List.cons.inj same).1⟩)
    | cons _ between =>
      obtain ⟨rfl, _⟩ := List.cons.inj same
      exact .inl ⟨by simp, lasts.of_append, lasts earlier' turn' between rfl⟩

/-- A watch comes to one turn at most that ends it. -/
theorem Comes.unique (comes : Comes beforehand turns earlier turn) (ends : ¬turn.Passes beforehand earlier)
    (comes' : Comes beforehand turns earlier' turn') (ends' : ¬turn'.Passes beforehand earlier') :
    earlier' = earlier ∧ turn' = turn := by
  obtain ⟨⟨later, parts⟩, lasts'⟩ := comes'
  rcases comes.compare ends parts with ⟨_, _, passes⟩ | same | ⟨_, past⟩
  · exact absurd passes ends'
  · exact same
  · exact absurd lasts' past

/-- The turns that ask are those up to the one that ends the watch, with that one unless it finds the session
cancelled. -/
theorem Comes.asks_iff (comes : Comes beforehand turns earlier turn) (ends : ¬turn.Passes beforehand earlier)
    (parts : turns = earlier' ++ turn' :: later) :
    earlier'.length < earlier.length + (foundCancelled beforehand earlier turn).not.toNat ↔
      Lasts beforehand earlier' ∧ foundCancelled beforehand earlier' turn' = false := by
  rcases comes.compare ends parts with ⟨before, lasts, passes⟩ | ⟨rfl, rfl⟩ | ⟨behind, past⟩
  · exact iff_of_true (by omega) ⟨lasts, passes.clear⟩
  · cases found : foundCancelled beforehand earlier' turn' with
    | true => simp
    | false => simp [comes.lasts]
  · have bound := Bool.toNat_le (foundCancelled beforehand earlier turn).not
    exact iff_of_false (by omega) fun asks => past asks.1

end

/-! ## Records -/

/-- What is done in a turn that passes, with what others do. -/
def Turn.round (parent : Nat) (interval : Duration) (turn : Turn) : List Act :=
  interference turn.early ++ ([.looked false, .asked parent turn.alive] ++ interference turn.meanwhile ++
    interference turn.wait.interferes ++ [.rested interval])

/-- What comes of a watch over this parent that meets these turns. -/
inductive Outcome (parent : Nat) (interval : Duration) (beforehand : Bool) (turns : List Turn) : Watch → Prop where
  /-- No turn ends it. -/
  | underway (lasts : Lasts beforehand turns) :
      Outcome parent interval beforehand turns
        { verdict := none, cancelled := beforehand || turns.any Turn.interferes,
          acts := turns.flatMap (Turn.round parent interval) }
  /-- A turn finds the session cancelled, and does not ask. -/
  | stopped {earlier : List Turn} {turn : Turn} (comes : Comes beforehand turns earlier turn)
      (found : foundCancelled beforehand earlier turn = true) :
      Outcome parent interval beforehand turns
        { verdict := some .cancelled, cancelled := true,
          acts := earlier.flatMap (Turn.round parent interval) ++ (interference turn.early ++ [.looked true]) }
  /-- A turn finds the parent dead. -/
  | exited {earlier : List Turn} {turn : Turn} (comes : Comes beforehand turns earlier turn)
      (clear : foundCancelled beforehand earlier turn = false) (dead : turn.alive = false) :
      Outcome parent interval beforehand turns
        { verdict := some (.parentExited parent), cancelled := true,
          acts := earlier.flatMap (Turn.round parent interval) ++ (interference turn.early ++
            ([.looked false, .asked parent false] ++ interference turn.meanwhile ++ [.cancelled])) }
  /-- The wait of a turn ends early. -/
  | roused {earlier : List Turn} {turn : Turn} {time : Duration} (comes : Comes beforehand turns earlier turn)
      (clear : foundCancelled beforehand earlier turn = false) (alive : turn.alive = true)
      (wait : turn.wait = .cancelled time) :
      Outcome parent interval beforehand turns
        { verdict := some .cancelled, cancelled := true,
          acts := earlier.flatMap (Turn.round parent interval) ++ (interference turn.early ++
            ([.looked false, .asked parent true] ++ interference turn.meanwhile ++
              [.interference, .roused time])) }

section

variable {parent : Nat} {interval : Duration} {beforehand : Bool} {turns earlier later : List Turn}
  {turn first : Turn} {watch : Watch}

/-- A turn that passes comes before what comes of the watch behind it. -/
theorem Outcome.cons (passes : first.Passes beforehand [])
    (outcome : Outcome parent interval (beforehand || first.interferes) later watch) :
    Outcome parent interval beforehand (first :: later) (watch.behind (first.round parent interval)) := by
  cases outcome with
  | underway lasts =>
    have whole : Outcome parent interval beforehand (first :: later) _ := .underway (lasts_cons.mpr ⟨passes, lasts⟩)
    rwa [List.any_cons, ← Bool.or_assoc] at whole
  | @stopped earlier _ comes found =>
    have whole : Outcome parent interval beforehand (first :: later) _ :=
      .stopped (comes.cons passes) ((foundCancelled_cons ..).trans found)
    rwa [List.flatMap_cons, List.append_assoc] at whole
  | @exited earlier _ comes clear dead =>
    have whole : Outcome parent interval beforehand (first :: later) _ :=
      .exited (comes.cons passes) ((foundCancelled_cons ..).trans clear) dead
    rwa [List.flatMap_cons, List.append_assoc] at whole
  | @roused earlier _ time comes clear alive wait =>
    have whole : Outcome parent interval beforehand (first :: later) _ :=
      .roused (comes.cons passes) ((foundCancelled_cons ..).trans clear) alive wait
    rwa [List.flatMap_cons, List.append_assoc] at whole

/-- One turn of a watch. It ends the watch, or the next turn goes on in the session as it is then. -/
theorem follow_cons (parent : Nat) (interval : Duration) (cancelled : Bool) (turn : Turn)
    (later : List Turn) :
    (follow parent interval cancelled (turn :: later)).value =
      match cancelled || turn.early, turn.alive, turn.wait with
      | true, _, _ =>
        { verdict := some .cancelled, cancelled := true, acts := interference turn.early ++ [.looked true] }
      | false, false, _ =>
        { verdict := some (.parentExited parent), cancelled := true,
          acts := interference turn.early ++
            ([.looked false, .asked parent false] ++ interference turn.meanwhile ++ [.cancelled]) }
      | false, true, .cancelled time =>
        { verdict := some .cancelled, cancelled := true,
          acts := interference turn.early ++ ([.looked false, .asked parent true] ++
            interference turn.meanwhile ++ [.interference, .roused time]) }
      | false, true, .elapsed late =>
        (follow parent interval (turn.meanwhile || late) later).value.behind
          (interference turn.early ++ ([.looked false, .asked parent true] ++
            interference turn.meanwhile ++ interference late ++ [.rested interval])) := by
  obtain ⟨early, alive, meanwhile, wait⟩ := turn
  rw [follow]
  cases cancelled || early with
  | true => rfl
  | false =>
    cases alive with
    | false => simp [Turn.questions, look, Log.report]
    | true => cases wait <;> simp [Turn.questions, look, standDown, Log.report]

/-- What comes of a watch is a matter of the turns that it meets. -/
theorem follow_outcome (parent : Nat) (interval : Duration) (beforehand : Bool) (turns : List Turn) :
    Outcome parent interval beforehand turns (follow parent interval beforehand turns).value := by
  induction turns generalizing beforehand with
  | nil =>
    have nothing : Outcome parent interval beforehand [] _ := .underway lasts_nil
    rwa [List.any_nil, Bool.or_false] at nothing
  | cons turn later inductionHypothesis =>
    have seen : foundCancelled beforehand [] turn = (beforehand || turn.early) := by simp [foundCancelled]
    rw [follow_cons]
    split
    case h_1 found => exact .stopped comes_first (seen.trans found)
    case h_2 clear dead => exact .exited comes_first (seen.trans clear) dead
    case h_3 time clear alive wait => exact .roused comes_first (seen.trans clear) alive wait
    case h_4 late clear alive wait =>
      have passes : turn.Passes beforehand [] := ⟨seen.trans clear, alive, late, wait⟩
      obtain ⟨rfl, early⟩ := Bool.or_eq_false_iff.mp clear
      have since : (false || turn.interferes) = (turn.meanwhile || late) := by
        simp [Turn.interferes, early, wait, Wait.interferes]
      have round : turn.round parent interval = interference turn.early ++ ([.looked false, .asked parent true] ++
          interference turn.meanwhile ++ interference late ++ [.rested interval]) := by
        rw [Turn.round, alive, wait, Wait.interferes]
      rw [← round]
      exact .cons passes (since ▸ inductionHypothesis _)

/-! ## Verdicts and questions -/

theorem Outcome.exited_iff (outcome : Outcome parent interval beforehand turns watch) {process : Nat} :
    watch.verdict = some (.parentExited process) ↔
      process = parent ∧ ∃ earlier turn, Comes beforehand turns earlier turn ∧
        foundCancelled beforehand earlier turn = false ∧ turn.alive = false := by
  constructor
  · intro exited
    cases outcome with
    | underway => exact absurd exited nofun
    | stopped => exact absurd exited nofun
    | exited comes clear dead =>
      obtain ⟨⟩ := exited
      exact ⟨rfl, _, _, comes, clear, dead⟩
    | roused => exact absurd exited nofun
  · rintro ⟨rfl, earlier, turn, comes, clear, dead⟩
    have ends : ¬turn.Passes beforehand earlier := not_passes_of_dead dead
    cases outcome with
    | underway lasts => exact absurd (comes.passes_of_lasts lasts) ends
    | stopped comes' found =>
      obtain ⟨rfl, rfl⟩ := comes.unique ends comes' (not_passes_of_found found)
      exact absurd (found.symm.trans clear) nofun
    | exited => rfl
    | roused comes' _ alive wait =>
      obtain ⟨rfl, rfl⟩ := comes.unique ends comes' (not_passes_of_roused wait)
      exact absurd (alive.symm.trans dead) nofun

theorem Outcome.underway_iff (outcome : Outcome parent interval beforehand turns watch) :
    watch.verdict = none ↔ Lasts beforehand turns := by
  constructor
  · intro underway
    cases outcome with
    | underway lasts => exact lasts
    | stopped => exact absurd underway nofun
    | exited => exact absurd underway nofun
    | roused => exact absurd underway nofun
  · intro lasts
    cases outcome with
    | underway => rfl
    | stopped comes found => exact absurd (comes.passes_of_lasts lasts) (not_passes_of_found found)
    | exited comes _ dead => exact absurd (comes.passes_of_lasts lasts) (not_passes_of_dead dead)
    | roused comes _ _ wait => exact absurd (comes.passes_of_lasts lasts) (not_passes_of_roused wait)

theorem Outcome.cancelled_iff (outcome : Outcome parent interval beforehand turns watch) :
    watch.verdict = some .cancelled ↔
      ∃ earlier turn, Comes beforehand turns earlier turn ∧
        (foundCancelled beforehand earlier turn = true ∨ turn.alive = true ∧ ∃ time, turn.wait = .cancelled time) := by
  constructor
  · intro cancelled
    cases outcome with
    | underway => exact absurd cancelled nofun
    | stopped comes found => exact ⟨_, _, comes, .inl found⟩
    | exited => exact absurd cancelled nofun
    | roused comes _ alive wait => exact ⟨_, _, comes, .inr ⟨alive, _, wait⟩⟩
  · rintro ⟨earlier, turn, comes, reason⟩
    have ends : ¬turn.Passes beforehand earlier := by
      rcases reason with found | ⟨_, time, wait⟩
      · exact not_passes_of_found found
      · exact not_passes_of_roused wait
    cases outcome with
    | underway lasts => exact absurd (comes.passes_of_lasts lasts) ends
    | stopped => rfl
    | exited comes' clear dead =>
      obtain ⟨rfl, rfl⟩ := comes.unique ends comes' (not_passes_of_dead dead)
      rcases reason with found | ⟨alive, _⟩
      · exact absurd (found.symm.trans clear) nofun
      · exact absurd (alive.symm.trans dead) nofun
    | roused => rfl

/-- The answer to a question. -/
def Act.answer? : Act → Option Bool
  | .asked _ alive => some alive
  | _ => none

/-- The answers of the parent, in order. -/
def answers (acts : List Act) : List Bool := acts.filterMap Act.answer?

theorem answers_append (front back : List Act) : answers (front ++ back) = answers front ++ answers back :=
  List.filterMap_append

/-- Every question is answered. -/
theorem answers_length (acts : List Act) : (answers acts).length = acts.countP Act.isQuestion := by
  have question : (fun act : Act => act.answer?.isSome) = Act.isQuestion := by
    funext act
    cases act <;> rfl
  rw [answers, List.length_filterMap_eq_countP, question]

theorem answers_interference (cancel : Bool) : answers (interference cancel) = [] := by
  cases cancel <;> rfl

theorem answers_round (turn : Turn) : answers (turn.round parent interval) = [turn.alive] := by
  simp only [Turn.round, answers_append, answers_interference]
  rfl

theorem answers_rounds (turns : List Turn) :
    answers (turns.flatMap (Turn.round parent interval)) = turns.map Turn.alive := by
  induction turns with
  | nil => rfl
  | cons turn later inductionHypothesis =>
    rw [List.flatMap_cons, answers_append, answers_round, inductionHypothesis]
    rfl

/-- The answers are those of the turns that ask. A turn asks if the watch comes to it and does not find the
session cancelled. -/
theorem Outcome.asked (outcome : Outcome parent interval beforehand turns watch) :
    ∃ asked rest, turns = asked ++ rest ∧ answers watch.acts = asked.map Turn.alive ∧
      ∀ front turn back, turns = front ++ turn :: back →
        (front.length < asked.length ↔ Lasts beforehand front ∧ foundCancelled beforehand front turn = false) := by
  cases outcome with
  | underway lasts =>
    refine ⟨turns, [], (List.append_nil _).symm, answers_rounds turns, ?_⟩
    rintro front turn back rfl
    exact iff_of_true (by simp) ⟨lasts.of_append, (lasts front turn back rfl).clear⟩
  | @stopped earlier turn comes found =>
    obtain ⟨later, parts⟩ := comes.parts
    refine ⟨earlier, turn :: later, parts, ?_, fun front other back parts' => ?_⟩
    · simp only [answers_append, answers_rounds, answers_interference]
      exact List.append_nil _
    · have asks := comes.asks_iff (not_passes_of_found found) parts'
      rwa [found] at asks
  | @exited earlier turn comes clear dead =>
    obtain ⟨later, parts⟩ := comes.parts
    refine ⟨earlier ++ [turn], later, by simpa using parts, ?_, fun front other back parts' => ?_⟩
    · simp only [answers_append, answers_rounds, answers_interference, List.map_append, List.map_singleton, dead]
      rfl
    · have asks := comes.asks_iff (not_passes_of_dead dead) parts'
      rw [clear] at asks
      rwa [List.length_append]
  | @roused earlier turn time comes clear alive wait =>
    obtain ⟨later, parts⟩ := comes.parts
    refine ⟨earlier ++ [turn], later, by simpa using parts, ?_, fun front other back parts' => ?_⟩
    · simp only [answers_append, answers_rounds, answers_interference, List.map_append, List.map_singleton, alive]
      rfl
    · have asks := comes.asks_iff (not_passes_of_roused wait) parts'
      rw [clear] at asks
      rwa [List.length_append]

end

end LspProxy.Parent
