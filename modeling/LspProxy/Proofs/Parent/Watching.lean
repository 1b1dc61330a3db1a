import LspProxy.Proofs.Parent.Rounds

/-!
# What a watch does

A watch goes round: it looks, asks, and waits for the interval. Every round is like the one before except the
last (`Course`), so what ends a watch is the first thing that is not calm, and nothing comes after it but the
cancellation that the death of the parent calls for (`Course.ends`).

That the watch looks at the session says nothing yet about what it sees. Others may cancel the session at any
moment, and their acts stand in the record among those of the watch. The record is right (`Heeds`) if each look
shows what has come of the acts before it, and each wait that ends early ends in a cancelled session. From both
together it follows who has cancelled a session that the watch finds cancelled: the watch cancels only as its
last act, so it was someone else.

A record might be all of this and yet be made up. What happens in it has therefore to be what the turns bring
(`Outcome`): their answers, one after the other, and the acts of others at their places.
-/
namespace LspProxy.Parent

namespace Act

/-- The watch does it, and not others. -/
def isOwn : Act → Bool
  | .interference => false
  | _ => true

/-- The session is cancelled by it. -/
def cancels : Act → Bool
  | .cancelled | .interference => true
  | _ => false

/-- The watch sees by it that the session is cancelled. -/
inductive Notices : Act → Prop where
  | looked : Notices (.looked true)
  | roused (time : Duration) : Notices (.roused time)

/-- It gives no reason to end the watch: there is a parent, the session is not cancelled, the parent is alive,
and the interval is over. -/
inductive Calm (parent : Nat) (interval : Duration) : Act → Prop where
  | sought : Calm parent interval (.sought (some parent))
  | looked : Calm parent interval (.looked false)
  | asked : Calm parent interval (.asked parent true)
  | rested : Calm parent interval (.rested interval)

/-- Only a watch notices something. -/
theorem Notices.isOwn {act : Act} (notices : act.Notices) : act.isOwn = true := by
  cases notices <;> rfl

/-- To notice that the session is cancelled is not calm. -/
theorem Notices.not_calm {act : Act} (notices : act.Notices) {parent : Nat} {interval : Duration} :
    ¬ act.Calm parent interval := by
  cases notices <;> exact nofun

/-- It shows the session as it is. -/
def Shows (cancelled : Bool) : Act → Prop
  | .looked seen => seen = cancelled
  | .roused _ => cancelled = true
  | _ => True

end Act

/-- Whether a session is cancelled after these acts. -/
def cancelledAfter (beforehand : Bool) (acts : List Act) : Bool := beforehand || acts.any Act.cancels

/-- Every act shows the session as the acts before it have left it. -/
def Heeds (cancelled : Bool) : List Act → Prop
  | [] => True
  | act :: later => act.Shows cancelled ∧ Heeds (cancelled || act.cancels) later

/-- The acts of the watch itself. -/
def own (acts : List Act) : List Act := acts.filter Act.isOwn

theorem mem_own {act : Act} {acts : List Act} : act ∈ own acts ↔ act ∈ acts ∧ act.isOwn = true :=
  List.mem_filter

/-- What the watch does at the end is among the acts. -/
theorem mem_of_own_eq {act : Act} {acts earlier ending : List Act} (parts : own acts = earlier ++ ending)
    (last : act ∈ ending) : act ∈ acts :=
  (mem_own.mp (parts ▸ List.mem_append_right earlier last)).1

/-! ## Rounds -/

/-- How a watch over this parent goes, with its verdict. -/
inductive Course (parent : Nat) (interval : Duration) : Option Verdict → List Act → Prop where
  /-- It has yet to look. -/
  | underway : Course parent interval none []
  /-- It finds the session cancelled, and does not ask. -/
  | stopped : Course parent interval (some .cancelled) [.looked true]
  /-- It finds the parent dead. -/
  | exited : Course parent interval (some (.parentExited parent))
      [.looked false, .asked parent false, .cancelled]
  /-- Its wait ends early. -/
  | roused (time : Duration) : Course parent interval (some .cancelled)
      [.looked false, .asked parent true, .roused time]
  | round {verdict : Option Verdict} {acts : List Act} (later : Course parent interval verdict acts) :
      Course parent interval verdict (.looked false :: .asked parent true :: .rested interval :: acts)

@[simp] theorem own_append (front back : List Act) : own (front ++ back) = own front ++ own back :=
  List.filter_append front back

@[simp] theorem own_cons (act : Act) (later : List Act) :
    own (act :: later) = if act.isOwn then act :: own later else own later :=
  List.filter_cons

@[simp] theorem own_interference (cancel : Bool) : own (interference cancel) = [] := by
  cases cancel <;> rfl

/-- A watch goes round until something ends it. -/
theorem follow_course (parent : Nat) (interval : Duration) (cancelled : Bool) (turns : List Turn) :
    Course parent interval (follow parent interval cancelled turns).value.verdict
      (own (follow parent interval cancelled turns).value.acts) := by
  induction turns generalizing cancelled with
  | nil => exact .underway
  | cons turn later inductionHypothesis =>
    rw [follow_cons]
    split
    case h_1 =>
      simp only [own_append, own_interference]
      exact .stopped
    case h_2 =>
      simp only [own_append, own_interference, List.nil_append, List.append_nil]
      exact .exited
    case h_3 time _ _ _ =>
      simp only [own_append, own_interference, List.nil_append, List.append_nil]
      exact .roused time
    case h_4 late =>
      simp only [Watch.behind, own_append, own_interference, List.nil_append, List.append_nil]
      exact .round (inductionHypothesis _)

@[simp] theorem cancelledAfter_nil (cancelled : Bool) : cancelledAfter cancelled [] = cancelled :=
  Bool.or_false cancelled

@[simp] theorem cancelledAfter_cons (cancelled : Bool) (act : Act) (later : List Act) :
    cancelledAfter cancelled (act :: later) = cancelledAfter (cancelled || act.cancels) later :=
  (Bool.or_assoc _ _ _).symm

@[simp] theorem cancelledAfter_append (cancelled : Bool) (front back : List Act) :
    cancelledAfter cancelled (front ++ back) = cancelledAfter (cancelledAfter cancelled front) back := by
  simp only [cancelledAfter, List.any_append, Bool.or_assoc]

@[simp] theorem cancelledAfter_interference (cancelled cancel : Bool) :
    cancelledAfter cancelled (interference cancel) = (cancelled || cancel) := by
  cases cancel <;> rfl

/-- An act that cancels the session leaves it so. -/
theorem cancelledAfter_of_mem {cancelled : Bool} {acts : List Act} {act : Act} (among : act ∈ acts)
    (cancels : act.cancels = true) : cancelledAfter cancelled acts = true := by
  unfold cancelledAfter
  rw [List.any_eq_true.mpr ⟨act, among, cancels⟩, Bool.or_true]

@[simp] theorem heeds_append (cancelled : Bool) (front back : List Act) :
    Heeds cancelled (front ++ back) ↔ Heeds cancelled front ∧ Heeds (cancelledAfter cancelled front) back := by
  induction front generalizing cancelled with
  | nil => simp [Heeds]
  | cons act front inductionHypothesis =>
    simp only [List.cons_append, Heeds, inductionHypothesis, cancelledAfter_cons, and_assoc]

@[simp] theorem heeds_interference (cancelled cancel : Bool) : Heeds cancelled (interference cancel) := by
  cases cancel with
  | false => trivial
  | true => exact ⟨trivial, trivial⟩

/-- If it is noticed that the session is cancelled, it is. -/
theorem Heeds.cancelled_of_notices {cancelled : Bool} {acts : List Act} (heeds : Heeds cancelled acts)
    {act : Act} (among : act ∈ acts) (notices : act.Notices) : cancelledAfter cancelled acts = true := by
  induction acts generalizing cancelled with
  | nil => exact absurd among nofun
  | cons first later inductionHypothesis =>
    obtain ⟨shows_, others⟩ := heeds
    rw [cancelledAfter_cons]
    rcases List.mem_cons.mp among with rfl | among
    · have seen : cancelled = true := by
        cases notices with
        | looked => exact shows_.symm
        | roused time => exact shows_
      subst seen
      rfl
    · exact inductionHypothesis others among

/-- The record of a watch is right, and so is the session that it leaves. -/
theorem follow_heeds (parent : Nat) (interval : Duration) (cancelled : Bool) (turns : List Turn) :
    Heeds cancelled (follow parent interval cancelled turns).value.acts ∧
      (follow parent interval cancelled turns).value.cancelled =
        cancelledAfter cancelled (follow parent interval cancelled turns).value.acts := by
  induction turns generalizing cancelled with
  | nil => exact ⟨trivial, (cancelledAfter_nil cancelled).symm⟩
  | cons turn later inductionHypothesis =>
    rw [follow_cons]
    split
    case h_1 seen => simp [Heeds, Act.Shows, Act.cancels, seen]
    case h_2 seen _ => simp [Heeds, Act.Shows, Act.cancels, seen]
    case h_3 seen _ _ => simp [Heeds, Act.Shows, Act.cancels, seen]
    case h_4 late seen _ _ =>
      obtain ⟨heeds, ends⟩ := inductionHypothesis (turn.meanwhile || late)
      simp [Heeds, Act.Shows, Act.cancels, seen, Watch.behind, heeds, ends]

/-! ## Endings -/

/-- What an act of a watch has to do with its verdict: nothing, if it is calm. -/
inductive Act.Bears (parent : Nat) (interval : Duration) : Option Verdict → Act → Prop where
  | calm {verdict : Option Verdict} {act : Act} (calm : act.Calm parent interval) :
      Bears parent interval verdict act
  | noticed {act : Act} (notices : act.Notices) : Bears parent interval (some .cancelled) act
  | dead : Bears parent interval (some (.parentExited parent)) (.asked parent false)
  | cancelled : Bears parent interval (some (.parentExited parent)) .cancelled

theorem Act.Bears.verdict_of_notices {parent : Nat} {interval : Duration} {verdict : Option Verdict}
    {act : Act} (bears : act.Bears parent interval verdict) (notices : act.Notices) :
    verdict = some .cancelled := by
  cases bears with
  | calm calm => exact absurd calm notices.not_calm
  | noticed _ => rfl
  | dead => cases notices
  | cancelled => cases notices

/-- What a watch does last, with its verdict. -/
inductive Ending (parent : Nat) : Option Verdict → List Act → Prop where
  | underway : Ending parent none []
  | noticed {act : Act} (notices : act.Notices) : Ending parent (some .cancelled) [act]
  | exited : Ending parent (some (.parentExited parent)) [.asked parent false, .cancelled]

/-- Nothing is out of the way until the watch ends. -/
def Ends (parent : Nat) (interval : Duration) (verdict : Option Verdict) (acts : List Act) : Prop :=
  ∃ earlier ending, acts = earlier ++ ending ∧ (∀ act ∈ earlier, act.Calm parent interval) ∧
    Ending parent verdict ending

section

variable {parent : Nat} {interval : Duration} {verdict : Option Verdict} {acts : List Act}

/-- One more calm act at the beginning. -/
theorem Ends.cons (ends : Ends parent interval verdict acts) {act : Act}
    (calm : act.Calm parent interval) : Ends parent interval verdict (act :: acts) := by
  obtain ⟨earlier, ending, rfl, others, last⟩ := ends
  exact ⟨act :: earlier, ending, rfl, List.forall_mem_cons.mpr ⟨calm, others⟩, last⟩

/-- A round is calm, and so are all rounds but the last. -/
theorem Course.ends (course : Course parent interval verdict acts) :
    Ends parent interval verdict acts := by
  induction course with
  | underway => exact ⟨[], [], rfl, nofun, .underway⟩
  | stopped => exact ⟨[], [.looked true], rfl, nofun, .noticed .looked⟩
  | exited =>
    have ending : Ends parent interval (some (.parentExited parent)) [.asked parent false, .cancelled] :=
      ⟨[], _, rfl, nofun, .exited⟩
    exact ending.cons .looked
  | roused time =>
    have ending : Ends parent interval (some .cancelled) [.roused time] :=
      ⟨[], _, rfl, nofun, .noticed (.roused time)⟩
    exact (ending.cons .asked).cons .looked
  | round _ inductionHypothesis => exact ((inductionHypothesis.cons .rested).cons .asked).cons .looked

/-- The parent is not asked for again. -/
theorem Course.sought_notMem (course : Course parent interval verdict acts) (parent? : Option Nat) :
    .sought parent? ∉ acts := by
  induction course with
  | underway => simp
  | stopped => simp
  | exited => simp
  | roused time => simp
  | round _ inductionHypothesis => simpa using inductionHypothesis

/-- A question is next, unless the session is found cancelled; or there are no more turns. -/
def AsksNext (parent : Nat) (verdict : Option Verdict) (later : List Act) : Prop :=
  later = [] ∧ verdict = none ∨ later = [.looked true] ∨
    ∃ alive rest, later = .looked false :: .asked parent alive :: rest

/-- A round begins with a question. -/
theorem Course.asksNext (course : Course parent interval verdict acts) :
    AsksNext parent verdict acts := by
  cases course with
  | underway => exact .inl ⟨rfl, rfl⟩
  | stopped => exact .inr (.inl rfl)
  | exited => exact .inr (.inr ⟨false, _, rfl⟩)
  | roused time => exact .inr (.inr ⟨true, _, rfl⟩)
  | round _ => exact .inr (.inr ⟨true, _, rfl⟩)

/-- After every wait a round begins. -/
theorem Course.resumes (course : Course parent interval verdict acts) {earlier later : List Act}
    {time : Duration} (parts : acts = earlier ++ .rested time :: later) :
    AsksNext parent verdict later := by
  induction course generalizing earlier with
  | underway => simp at parts
  | stopped => simp [List.cons_eq_append_iff] at parts
  | exited => simp [List.cons_eq_append_iff] at parts
  | roused time => simp [List.cons_eq_append_iff] at parts
  | round course inductionHypothesis =>
    match earlier with
    | [] | [_] => simp at parts
    | [_, _] =>
      simp only [List.cons_append, List.nil_append, List.cons.injEq] at parts
      exact parts.2.2.2 ▸ course.asksNext
    | _ :: _ :: _ :: earlier =>
      simp only [List.cons_append, List.cons.injEq] at parts
      exact inductionHypothesis parts.2.2.2

namespace Ends

/-- An act that is not calm belongs to the end. -/
theorem mem (ends : Ends parent interval verdict acts) {act : Act} (among : act ∈ acts) :
    act.Bears parent interval verdict := by
  obtain ⟨earlier, ending, rfl, calm, last⟩ := ends
  rcases List.mem_append.mp among with before | after
  · exact .calm (calm act before)
  · cases last with
    | underway => exact absurd after nofun
    | noticed notices =>
      obtain rfl := List.mem_singleton.mp after
      exact .noticed notices
    | exited =>
      rcases List.mem_cons.mp after with rfl | after
      · exact .dead
      · obtain rfl := List.mem_singleton.mp after
        exact .cancelled

/-- A watch that stands down has noticed the cancellation, and done nothing since. -/
theorem cancelled (ends : Ends parent interval (some .cancelled) acts) :
    ∃ earlier act, acts = earlier ++ [act] ∧ act.Notices ∧
      ∀ other ∈ earlier, other.Calm parent interval := by
  obtain ⟨earlier, ending, parts, calm, last⟩ := ends
  cases last with
  | @noticed act notices => exact ⟨earlier, act, parts, notices, calm⟩

/-- A watch that reports the death of the parent has found it dead, and done nothing since but cancel the
session. -/
theorem exited {process : Nat} (ends : Ends parent interval (some (.parentExited process)) acts) :
    process = parent ∧ ∃ earlier, acts = earlier ++ [.asked parent false, .cancelled] ∧
      ∀ other ∈ earlier, other.Calm parent interval := by
  obtain ⟨earlier, ending, parts, calm, last⟩ := ends
  cases last with
  | exited => exact ⟨rfl, earlier, parts, calm⟩

/-- There is something to watch. -/
theorem ne_inert (ends : Ends parent interval verdict acts) : verdict ≠ some .inert := by
  obtain ⟨earlier, ending, parts, calm, last⟩ := ends
  cases last <;> simp

end Ends

/-! ## Acts among those of others -/

section

variable (ends : Ends parent interval verdict (own acts))

include ends

theorem Ends.bears {act : Act} (among : act ∈ acts) (isOwn : act.isOwn = true) :
    act.Bears parent interval verdict :=
  ends.mem (mem_own.mpr ⟨among, isOwn⟩)

/-- Only the parent is asked after. -/
theorem Ends.asked {process : Nat} {alive : Bool} (among : .asked process alive ∈ acts) :
    process = parent := by
  cases ends.bears among rfl with
  | calm calm => cases calm; rfl
  | noticed notices => cases notices
  | dead => rfl

/-- Every wait that is not ended early is one of the interval. -/
theorem Ends.rested {time : Duration} (among : .rested time ∈ acts) : time = interval := by
  cases ends.bears among rfl with
  | calm calm => cases calm; rfl
  | noticed notices => cases notices

/-- The death of the parent is the verdict exactly if a question is answered so. -/
theorem Ends.exited_iff {process : Nat} :
    verdict = some (.parentExited process) ↔ .asked process false ∈ acts := by
  constructor
  · rintro rfl
    obtain ⟨rfl, earlier, parts, _⟩ := ends.exited
    exact mem_of_own_eq parts List.mem_cons_self
  · intro among
    cases ends.bears among rfl with
    | calm calm => cases calm
    | noticed notices => cases notices
    | dead => rfl

/-- A watch that has cancelled the session has found the parent dead. -/
theorem Ends.verdict_of_cancelled (among : .cancelled ∈ acts) : verdict = some (.parentExited parent) := by
  cases ends.bears among rfl with
  | calm calm => cases calm
  | noticed notices => cases notices
  | cancelled => rfl

/-- And one that has found it dead has cancelled the session. -/
theorem Ends.cancelled_of_asked {process : Nat} (among : .asked process false ∈ acts) :
    .cancelled ∈ acts := by
  obtain rfl := ends.exited_iff.mpr among
  obtain ⟨_, earlier, parts, _⟩ := ends.exited
  exact mem_of_own_eq parts (List.mem_cons_of_mem _ List.mem_cons_self)

/-- A watch stands down exactly if it notices that the session is cancelled. -/
theorem Ends.cancelled_iff : verdict = some .cancelled ↔ ∃ act ∈ acts, act.Notices := by
  constructor
  · rintro rfl
    obtain ⟨earlier, act, parts, notices, _⟩ := ends.cancelled
    exact ⟨act, mem_of_own_eq parts (List.mem_singleton_self act), notices⟩
  · rintro ⟨act, among, notices⟩
    exact (ends.bears among notices.isOwn).verdict_of_notices notices

/-- What it notices is the last that it does. -/
theorem Ends.noticed {act : Act} (among : act ∈ acts) (notices : act.Notices) :
    ∃ earlier, own acts = earlier ++ [act] ∧ ∀ other ∈ earlier, other.Calm parent interval := by
  obtain rfl := ends.cancelled_iff.mpr ⟨act, among, notices⟩
  obtain ⟨earlier, last, parts, _, calm⟩ := ends.cancelled
  have here : act ∈ earlier ++ [last] := parts ▸ mem_own.mpr ⟨among, notices.isOwn⟩
  rcases List.mem_append.mp here with before | after
  · exact absurd (calm act before) notices.not_calm
  · obtain rfl := List.mem_singleton.mp after
    exact ⟨earlier, parts, calm⟩

/-- A watch that stands down has not cancelled the session itself. -/
theorem Ends.others {beforehand : Bool} (heeds : Heeds beforehand acts)
    (stoodDown : verdict = some .cancelled) : beforehand = true ∨ .interference ∈ acts := by
  obtain ⟨act, noticed, notices⟩ := ends.cancelled_iff.mp stoodDown
  rcases Bool.or_eq_true_iff.mp (heeds.cancelled_of_notices noticed notices) with before | since
  · exact .inl before
  · obtain ⟨done, among, cancels⟩ := List.any_eq_true.mp since
    cases done with
    | interference => exact .inr among
    | cancelled => exact absurd (stoodDown.symm.trans (ends.verdict_of_cancelled among)) nofun
    | sought | looked | asked | rested | roused => exact absurd cancels nofun

end

end

/-- What is to be said of a watch, by the turns that it meets and by the record that it keeps of them. -/
structure Faithful (parent? : Option Nat) (interval : Duration) (beforehand : Bool) (turns : List Turn)
    (watch : Watch) : Prop where
  /-- With a parent, all that is done comes of the turns, one after the other. -/
  outcome : ∀ parent, parent? = some parent → ∃ rest, watch = rest.behind [.sought parent?] ∧
    Outcome parent interval beforehand turns rest
  /-- The answers in the record are those of the turns. -/
  answered : answers watch.acts = (turns.take watch.checks).map Turn.alive
  /-- A turn asks exactly if no turn before it has ended the watch, and it does not find the session cancelled. -/
  asks : ∀ parent, parent? = some parent → ∀ earlier turn later, turns = earlier ++ turn :: later →
    (earlier.length < watch.checks ↔
      Lasts beforehand earlier ∧ foundCancelled beforehand earlier turn = false)
  /-- The death of the parent is reported exactly if it is dead in a turn that asks after it. -/
  exitedIn : ∀ parent, watch.verdict = some (.parentExited parent) ↔
    parent? = some parent ∧ ∃ earlier turn, Comes beforehand turns earlier turn ∧
      foundCancelled beforehand earlier turn = false ∧ turn.alive = false
  /-- The watch stands down exactly if it comes to a turn that finds the session cancelled, or whose wait others
  end. -/
  cancelledIn : watch.verdict = some .cancelled ↔
    parent?.isSome = true ∧ ∃ earlier turn, Comes beforehand turns earlier turn ∧
      (foundCancelled beforehand earlier turn = true ∨ turn.alive = true ∧ ∃ time, turn.wait = .cancelled time)
  /-- It has not ended exactly if no turn has ended it. -/
  underway : watch.verdict = none ↔ parent?.isSome = true ∧ Lasts beforehand turns
  /-- The parent is asked for once, before anything else. -/
  sought : ∃ later, watch.acts = .sought parent? :: later ∧ ∀ other, .sought other ∉ later
  /-- Only the parent is asked after. -/
  asked : ∀ process alive, .asked process alive ∈ watch.acts → parent? = some process
  /-- The watch is inert exactly if there is no parent. -/
  inert : watch.verdict = some .inert ↔ parent? = none
  /-- It does nothing then. -/
  untouched : parent? = none → watch.acts = [.sought none] ∧ watch.cancelled = beforehand
  /-- It reports the death of the parent exactly if a question is answered so. -/
  exited : ∀ parent, watch.verdict = some (.parentExited parent) ↔ .asked parent false ∈ watch.acts
  /-- That question is the last, nothing before it gave a reason to end the watch, and the session is
  cancelled. -/
  death : ∀ parent, .asked parent false ∈ watch.acts → watch.cancelled = true ∧
    ∃ earlier, own watch.acts = earlier ++ [.asked parent false, .cancelled] ∧
      ∀ act ∈ earlier, act.Calm parent interval
  /-- It stands down exactly if it notices a cancellation. -/
  cancelled : watch.verdict = some .cancelled ↔ ∃ act ∈ watch.acts, act.Notices
  /-- It does nothing after that, and nothing before it gave a reason to end the watch. -/
  noticed : ∀ act ∈ watch.acts, act.Notices → ∃ parent earlier, own watch.acts = earlier ++ [act] ∧
    ∀ other ∈ earlier, other.Calm parent interval
  /-- It was others who cancelled the session then. -/
  others : watch.verdict = some .cancelled → beforehand = true ∨ .interference ∈ watch.acts
  /-- The watch cancels the session in no other case than the death of the parent. -/
  cancels : .cancelled ∈ watch.acts → ∃ parent, watch.verdict = some (.parentExited parent)
  /-- What the watch sees of the session is right. -/
  heeds : Heeds beforehand watch.acts
  /-- So is what it leaves. -/
  leaves : watch.cancelled = cancelledAfter beforehand watch.acts
  /-- A question is asked at the beginning, unless the session is found cancelled first. -/
  begins : ∀ parent, parent? = some parent →
    ∃ later, own watch.acts = .sought parent? :: later ∧ AsksNext parent watch.verdict later
  /-- So it is after every wait. -/
  resumes : ∀ parent earlier time later, parent? = some parent →
    own watch.acts = earlier ++ .rested time :: later → AsksNext parent watch.verdict later
  /-- The waits that are not ended early are those of the interval. -/
  rested : ∀ time, .rested time ∈ watch.acts → time = interval

/-- Without a parent. -/
theorem watch_inert (interval : Duration) (beforehand : Bool) (turns : List Turn) :
    Faithful none interval beforehand turns (watch none interval beforehand turns).value := by
  have whole : (watch none interval beforehand turns).value =
      { verdict := some .inert, cancelled := beforehand, acts := [.sought none] } := rfl
  rw [whole]
  constructor
  case sought => exact ⟨[], rfl, nofun⟩
  case answered => rfl
  case heeds => exact ⟨trivial, trivial⟩
  case noticed =>
    rintro act member notices
    obtain rfl := List.mem_singleton.mp member
    cases notices
  case cancelled =>
    refine ⟨nofun, fun ⟨act, member, notices⟩ => ?_⟩
    obtain rfl := List.mem_singleton.mp member
    cases notices
  case leaves => exact (Bool.or_false beforehand).symm
  all_goals simp

/-- With a parent. -/
theorem watch_known (parent : Nat) (interval : Duration) (beforehand : Bool) (turns : List Turn) :
    Faithful (some parent) interval beforehand turns
      (watch (some parent) interval beforehand turns).value := by
  have course := follow_course parent interval beforehand turns
  have record := follow_heeds parent interval beforehand turns
  have outcome := follow_outcome parent interval beforehand turns
  have whole : (watch (some parent) interval beforehand turns).value =
      (follow parent interval beforehand turns).value.behind [.sought (some parent)] := rfl
  rw [whole]
  generalize (follow parent interval beforehand turns).value = rest at course record outcome
  obtain ⟨verdict, cancelled, acts⟩ := rest
  obtain ⟨heeds, leaves⟩ := record
  have ends : Ends parent interval verdict (own (.sought (some parent) :: acts)) :=
    course.ends.cons .sought
  have seen : Heeds beforehand (.sought (some parent) :: acts) :=
    ⟨trivial, (Bool.or_false beforehand).symm ▸ heeds⟩
  have left : cancelled = cancelledAfter beforehand (.sought (some parent) :: acts) := by
    simpa [Act.cancels] using leaves
  obtain ⟨asked, idle, parts, told, asks⟩ := outcome.asked
  have counted : Watch.checks ⟨verdict, cancelled, .sought (some parent) :: acts⟩ = asked.length := by
    rw [Watch.checks, ← answers_length]
    exact (congrArg List.length told).trans (List.length_map _)
  constructor
  case outcome =>
    rintro process known
    obtain rfl := Option.some.inj known
    exact ⟨_, rfl, outcome⟩
  case answered =>
    change answers acts = (turns.take (Watch.checks ⟨verdict, cancelled, .sought (some parent) :: acts⟩)).map _
    rw [counted, told, parts, List.take_left]
  case asks =>
    intro process known earlier turn later met
    change earlier.length < Watch.checks ⟨verdict, cancelled, .sought (some parent) :: acts⟩ ↔ _
    rw [counted]
    exact asks earlier turn later met
  case exitedIn =>
    intro process
    rw [Option.some.injEq, eq_comm (b := process)]
    exact outcome.exited_iff
  case cancelledIn => exact outcome.cancelled_iff.trans (and_iff_right rfl).symm
  case underway => exact outcome.underway_iff.trans (and_iff_right rfl).symm
  case sought =>
    refine ⟨acts, rfl, fun other among => ?_⟩
    exact course.sought_notMem other (mem_own.mpr ⟨among, rfl⟩)
  case asked => exact fun process alive among => congrArg some (ends.asked among).symm
  case inert => exact ⟨fun inert => absurd inert ends.ne_inert, nofun⟩
  case untouched => exact nofun
  case exited => exact fun process => ends.exited_iff
  case death =>
    intro process among
    refine ⟨left.trans (cancelledAfter_of_mem (ends.cancelled_of_asked among) rfl), ?_⟩
    obtain rfl := ends.exited_iff.mpr among
    obtain ⟨rfl, last⟩ := ends.exited
    exact last
  case cancelled => exact ends.cancelled_iff
  case noticed => exact fun act among notices => ⟨parent, ends.noticed among notices⟩
  case others => exact ends.others seen
  case cancels => exact fun among => ⟨parent, ends.verdict_of_cancelled among⟩
  case heeds => exact seen
  case leaves => exact left
  case begins =>
    rintro process known
    obtain rfl := Option.some.inj known
    exact ⟨own acts, rfl, course.asksNext⟩
  case resumes =>
    rintro process earlier time later known parts
    obtain rfl := Option.some.inj known
    cases earlier with
    | nil => exact absurd (List.head_eq_of_cons_eq parts) nofun
    | cons first earlier => exact course.resumes (List.tail_eq_of_cons_eq parts)
  case rested => exact fun time among => ends.rested among

/-- A watch ends the session exactly on the first death that it sees, whatever the parent answers, however
long the interval is, and whenever others cancel the session. Which turns it asks in, what is answered there
and how it ends is decided by the turns. -/
theorem watch_faithful (parent? : Option Nat) (interval : Duration) (beforehand : Bool)
    (turns : List Turn) :
    Faithful parent? interval beforehand turns (watch parent? interval beforehand turns).value := by
  cases parent? with
  | none => exact watch_inert interval beforehand turns
  | some parent => exact watch_known parent interval beforehand turns

/-- Others cancel the session at the end of a wait, as the parent dies, and the interval is over first. -/
example :
    let turns : List Turn := [⟨false, true, false, .elapsed true⟩, ⟨false, false, false, .elapsed false⟩]
    (watch (some 7) (.ofSeconds 1) false turns).value =
      { verdict := some .cancelled, cancelled := true,
        acts := [.sought (some 7), .looked false, .asked 7 true, .interference, .rested (.ofSeconds 1),
          .looked true] } := by
  decide

end LspProxy.Parent
