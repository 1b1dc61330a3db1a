import LspProxy.Duration
import LspProxy.Log.Event

/-!
# Watching the parent

The parent is asked after in turns. A turn first looks whether the session has been cancelled, then
asks, and then waits, unless the wait is cut short by a cancellation. What a turn would find is data,
and so is the moment at which others cancel the session, so a watch is a function of the turns it
meets; it ends in the first turn that gives it a reason to, and cancels the session itself exactly if
the parent is found dead. It keeps a record of all that it does, with what others do among it.
-/
namespace LspProxy.Parent

/-- How a wait between two questions ends. -/
inductive Wait where
  /-- The interval is over. Others may have cancelled the session meanwhile. -/
  | elapsed (cancelled : Bool)
  /-- Others have cancelled the session, and this is noticed after so long. -/
  | cancelled (time : Duration)
  deriving Repr, DecidableEq

/-- What one turn of a watch finds. -/
structure Turn where
  /-- Others cancel the session before the turn looks. -/
  early : Bool
  /-- The parent is alive when asked after. -/
  alive : Bool
  /-- Others cancel the session while the parent is asked after. -/
  meanwhile : Bool
  wait : Wait
  deriving Repr, DecidableEq

/-- How a watch ends. -/
inductive Verdict where
  /-- The parent was found dead. -/
  | parentExited (parent : Nat)
  /-- Someone else cancelled the session. -/
  | cancelled
  /-- There was no parent to watch. -/
  | inert
  deriving Repr, DecidableEq

/-- What a watch does, and what others do meanwhile. -/
inductive Act where
  /-- The parent is asked for. -/
  | sought (parent? : Option Nat)
  /-- The watch looks whether the session is cancelled. -/
  | looked (cancelled : Bool)
  /-- A process is asked after. -/
  | asked (process : Nat) (alive : Bool)
  /-- The watch cancels the session. -/
  | cancelled
  /-- The watch has waited for the interval. -/
  | rested (interval : Duration)
  /-- A wait ends early, because the session is cancelled. -/
  | roused (time : Duration)
  /-- Others cancel the session. -/
  | interference
  deriving Repr, DecidableEq

/-- It is a question after a process. -/
def Act.isQuestion : Act → Bool
  | .asked _ _ => true
  | _ => false

/-- How long it takes. Only waits take time. -/
def Act.time : Act → Duration
  | .rested interval => interval
  | .roused time => time
  | _ => .ofMilliseconds 0

/-- The act of others who cancel the session, if they do. -/
def interference (cancel : Bool) : List Act := if cancel then [.interference] else []

/-- A watch up to its end, or so far. -/
structure Watch where
  /-- How it ended, if it did. -/
  verdict : Option Verdict := none
  /-- The session is cancelled when the watch ends. -/
  cancelled : Bool
  /-- What has happened, in order. -/
  acts : List Act := []
  deriving Repr, DecidableEq

namespace Watch

/-- How often the parent was asked after. -/
def checks (watch : Watch) : Nat := watch.acts.countP Act.isQuestion

/-- The time spent waiting, in milliseconds. -/
def elapsed (watch : Watch) : Nat :=
  watch.acts.foldr (fun act total => act.time.milliseconds + total) 0

/-- The watch goes on from these acts. -/
def behind (acts : List Act) (watch : Watch) : Watch := { watch with acts := acts ++ watch.acts }

end Watch

/-- Begin to watch. The parent is asked for once, and nothing is watched without one. -/
def begin (parent? : Option Nat) (interval : Duration) : Log.Logged (Option Nat) :=
  match parent? with
  | none => do
    Log.report .debug "parent process id unavailable; liveness monitor inactive"
    return none
  | some parent => do
    Log.report .debug "watching parent process"
      [("parent", .number parent), ("interval", .shown interval.display)]
    return some parent

/-- Look at the start of a turn whether it ends the watch. A parent is not asked after once the
session is cancelled. -/
def look (parent : Nat) (cancelled alive : Bool) : Log.Logged (Option Verdict) :=
  if cancelled then return some .cancelled
  else if alive then return none
  else do
    Log.report .warning "parent process exited; shutting down" [("parent", .number parent)]
    return some (.parentExited parent)

/-- End the watch because the session is cancelled during a wait. -/
def standDown (parent : Nat) : Log.Logged Verdict := do
  Log.report .info "parent monitor stopped" [("parent", .number parent)]
  return .cancelled

/-- What is done in a turn before the wait: the watch looks, and asks unless the session is cancelled. -/
def Turn.questions (turn : Turn) (parent : Nat) (cancelled : Bool) : List Act :=
  interference turn.early ++ .looked cancelled ::
    if cancelled then [] else .asked parent turn.alive :: interference turn.meanwhile

/-- The turns of a watch over a known parent, from one at which the session is or is not cancelled. -/
def follow (parent : Nat) (interval : Duration) (cancelled : Bool) : List Turn → Log.Logged Watch
  | [] => return { cancelled }
  | turn :: later => do
    let seen := cancelled || turn.early
    let acts := turn.questions parent seen
    match ← look parent seen turn.alive with
    | some (.parentExited parent) =>
      return { verdict := some (.parentExited parent), cancelled := true, acts := acts ++ [.cancelled] }
    | some verdict => return { verdict := some verdict, cancelled := seen, acts }
    | none =>
      match turn.wait with
      | .cancelled time =>
        let verdict ← standDown parent
        return { verdict := some verdict, cancelled := true, acts := acts ++ [.interference, .roused time] }
      | .elapsed late =>
        let rest ← follow parent interval (turn.meanwhile || late) later
        return rest.behind (acts ++ interference late ++ [.rested interval])

/-- A watch from its beginning, in a session that is or is not cancelled beforehand. -/
def watch (parent? : Option Nat) (interval : Duration) (beforehand : Bool) (turns : List Turn) :
    Log.Logged Watch := do
  match ← begin parent? interval with
  | none => return { verdict := some .inert, cancelled := beforehand, acts := [.sought parent?] }
  | some parent =>
    let rest ← follow parent interval beforehand turns
    return rest.behind [.sought parent?]

/-! ## Turns on a clock -/

/-- The turn that starts after `index` intervals: the parent answers the first `answers` questions,
if there is a limit, and the session is cancelled at a time, if it is. -/
def turnAt (interval : Nat) (answers cancelAt : Option Nat) (index : Nat) : Turn :=
  let start := index * interval
  { early := cancelAt.any (· ≤ start)
    alive := answers.all (index < ·)
    meanwhile := false
    wait := match cancelAt with
      | some time =>
        if time < start + interval then .cancelled (.ofMilliseconds (time - start)) else .elapsed false
      | none => .elapsed false }

/-- The turns that a watch meets until it ends: after the last answer, or in the turn of the
cancellation. -/
def turnsOnClock (interval : Nat) (answers cancelAt : Option Nat) : List Turn :=
  let count := match answers, cancelAt with
    | some answers, _ => answers + 1
    | none, some time => time / interval + 2
    | none, none => 0
  (List.range count).map (turnAt interval answers cancelAt)

end LspProxy.Parent
