import LspProxy.Rehearsal.Peer
import LspProxy.Rehearsal.Script
import LspProxy.Session.Launch
import LspProxy.Session.Step

/-!
# Rehearsals

A rehearsal is one run of a session, with a list of actions in the server's place and perhaps a peer at
the far end of the channel. Whoever can move does, in a fixed order: first the tasks of the session,
then the server and its peer. Only when nobody can, time passes, up to the next moment at which
somebody can again. All that happens to the session is a step of it.
-/
namespace LspProxy

/-- What appears on the proxy's error output: its own reports, and what the server writes there. -/
inductive Appearance where
  | report (event : Log.Event)
  | bytes (content : Bytes)
  deriving Repr, DecidableEq

/-- How the proxy is cancelled from outside. -/
inductive Cancelling where
  | never
  /-- At a time. -/
  | planned (time : Nat)
  /-- By a signal, some time after something appears at a path. -/
  | interrupt (path : Path) (delay : Nat)
  /-- By a signal, at a time. -/
  | interruptAt (time : Nat)
  deriving Repr, DecidableEq

/-- A rehearsal under way. -/
structure Rehearsal where
  session : Session.State
  /-- What the server still does. -/
  actions : List Rehearsal.Action
  /-- When the server goes on. -/
  wake : Nat := 0
  /-- The server's ends of its streams are closed. -/
  silent : Bool := false
  peer : Option Rehearsal.Peer := none
  cancelling : Cancelling := .never
  /-- What has appeared on the error output, the last first. -/
  screen : List Appearance := []

namespace Rehearsal

/-- The signal that ends a process which writes to nobody. -/
def brokenPipeSignal : Nat := 13

/-- The server has the connection for its standard streams. -/
def overStandardStreams (rehearsal : Rehearsal) : Bool :=
  rehearsal.session.settings.endpoint = .standard

/-- The rehearsal after moves of the surroundings. -/
def meet (rehearsal : Rehearsal) (moves : List Session.Move) : Option Rehearsal := do
  return { rehearsal with session := ← moves.foldlM Session.State.meet rehearsal.session }

/-- The rehearsal after a turn of a task. -/
def advance (rehearsal : Rehearsal) (task : Session.Task) : Option Rehearsal := do
  return { rehearsal with session := ← rehearsal.session.advance task }

/-! ## The server -/

/-- The flow with the content of its file, which is read once. -/
def loaded (rehearsal : Rehearsal) (flow : Flow) : Flow :=
  match flow.origin with
  | .file path =>
    { flow with origin := .bytes ((rehearsal.session.disk.read path).toOption.getD []) }
  | _ => flow

/-- What a server finds at the origin of a flow that has been loaded. -/
def find (rehearsal : Rehearsal) : Origin → Pipe.Finding
  | .bytes content => if content.isEmpty then .ended else .data content
  | .input =>
    if rehearsal.overStandardStreams then
      (rehearsal.session.toServer.fetch Session.pipeCapacity).1
    else .ended
  | .zeros => .data (List.replicate Session.pipeCapacity 0)
  | .file _ => .ended

/-- How a target takes bytes: as many as there is room for, unless nobody reads. -/
inductive Taking where
  | refused
  | upTo (room : Nat)
  | all

/-- How the target of a flow takes bytes. -/
def taking (rehearsal : Rehearsal) : Target → Taking
  | .output =>
    if rehearsal.overStandardStreams then
      let pipe := rehearsal.session.fromServer
      if pipe.readable then .upTo pipe.room else .refused
    else .all
  | .errors =>
    let pipe := rehearsal.session.errors
    if pipe.readable then .upTo pipe.room else .refused
  | .nowhere | .file _ => .all

/-- The moves of bytes that are written to a target. -/
def deliver (rehearsal : Rehearsal) (bytes : Bytes) : Target → List Session.Move
  | .output => if rehearsal.overStandardStreams then [.serverWrites bytes] else []
  | .errors => [.serverComplains bytes]
  | .nowhere => []
  | .file path =>
    match rehearsal.session.disk.append path bytes with
    | .ok disk => [.filesChange disk]
    | .error _ => []

/-- The moves of bytes that are taken from an origin. -/
def takeFrom (rehearsal : Rehearsal) (count : Nat) : Origin → List Session.Move
  | .input => if rehearsal.overStandardStreams then [.serverReads count] else []
  | _ => []

/-- The next portion of a flow. -/
def passOn (rehearsal : Rehearsal) (flow : Flow) (target : Target) (own : Bool)
    (later : List Action) : Option Rehearsal :=
  let flow := rehearsal.loaded flow
  if flow.isDry then some { rehearsal with actions := later }
  else
    match rehearsal.find flow.origin, rehearsal.taking target with
    | .nothing, _ => none
    | .data bytes, .refused =>
      { rehearsal with actions := if own then [.die brokenPipeSignal] else later }.meet
        (rehearsal.takeFrom (flow.within bytes).length flow.origin)
    | .data _, .upTo 0 => none
    | .data bytes, taking =>
      let passing := match taking with
        | .upTo room => (flow.within bytes).take room
        | _ => flow.within bytes
      { rehearsal with actions := .pass (flow.after passing.length) target own :: later }.meet
        (rehearsal.takeFrom passing.length flow.origin
          ++ rehearsal.deliver (passing.map flow.change) target)
    | _, _ => some { rehearsal with actions := later }

/-- The shortest wait between two looks at a file. -/
def shortestInterval : Nat := 1000000

/-- A file made, or emptied. -/
def created (disk : Disk) (path : Path) (empty : Bool) : Disk :=
  let cleared := if empty ∧ (disk.regular? path).isSome then (disk.remove path).toOption.getD disk else disk
  (cleared.append path []).toOption.getD cleared

/-- The next turn of the server. -/
def serve (rehearsal : Rehearsal) : Option Rehearsal :=
  let session := rehearsal.session
  match session.server with
  | .running =>
    if session.clock < rehearsal.wake then none
    else
      match rehearsal.actions with
      | [] => none
      | .pass flow target own :: later => rehearsal.passOn flow target own later
      | .create path empty :: later =>
        { rehearsal with actions := later }.meet [.filesChange (created session.disk path empty)]
      | .pause time :: later => some { rehearsal with wake := session.clock + time, actions := later }
      | .await path interval :: later =>
        if session.disk.exists? path then some { rehearsal with actions := later }
        else some { rehearsal with wake := session.clock + max interval shortestInterval }
      | .use other :: _ =>
        let aftermath := other session.disk
        let ending := (aftermath.code.map Action.exit).toList
        { rehearsal with actions := .say .errors aftermath.errors :: ending }.meet
          [.filesChange aftermath.disk]
      | .exit code :: _ => { rehearsal with actions := [] }.meet [.serverEnds (.ofCode code)]
      | .die signal :: _ => { rehearsal with actions := [] }.meet [.serverEnds (.ofSignal signal)]
  | _ =>
    if rehearsal.silent then none
    else
      { rehearsal with silent := true }.meet <| .serverFallsSilent ::
        if rehearsal.overStandardStreams then [.serverStopsReading, .serverStopsWriting none] else []

/-! ## The peer -/

/-- The file that tells the server that its peer has closed the connection. -/
def doneFile : Path := Bytes.ascii "done"

/-- The failure that a connection leaves behind that is closed with bytes unread. -/
def resetFailure : Failure := .system ErrorNumber.connectionReset

/-- The channel's socket is there to be connected to. -/
def isReachable (session : Session.State) : Bool :=
  match session.prepared with
  | some (.listening listener) => listener.isInPlace session.disk
  | _ => false

/-- The moves of what a peer does. -/
def movesOf (session : Session.State) : Deed → List Session.Move
  | .reads count => [.serverReads count]
  | .writes bytes => [.serverWrites bytes]
  | .closes =>
    [.serverStopsWriting (if session.toServer.content = [] then none else some resetFailure),
      .serverStopsReading, .filesChange (created session.disk doneFile false)]

/-- The next turn of the peer. -/
def answer (rehearsal : Rehearsal) : Option Rehearsal := do
  let peer ← rehearsal.peer
  let session := rehearsal.session
  if peer.connected then
    let (peer, deed) ← peer.turn session.toServer session.fromServer
    meet { rehearsal with peer := some peer } ((deed.map (movesOf session)).getD [])
  else if isReachable session then
    meet { rehearsal with peer := some { peer with connected := true } } [.connects (.ok ())]
  else none

/-! ## Time -/

/-- The report of an interruption. -/
def interruption : Log.Event := ⟨.info, "interrupted; shutting down", []⟩

/-- What comes of a cancellation from outside, if it is time for it. -/
def cancel (rehearsal : Rehearsal) : Option Rehearsal :=
  let session := rehearsal.session
  match rehearsal.cancelling with
  | .never => none
  | .planned time =>
    if time ≤ session.clock then { rehearsal with cancelling := .never }.meet [.cancels] else none
  | .interrupt path delay =>
    if session.disk.exists? path then
      some { rehearsal with cancelling := .interruptAt (session.clock + delay) }
    else none
  | .interruptAt time =>
    if time ≤ session.clock then
      { rehearsal with cancelling := .never, session := session.add [interruption] }.meet [.cancels]
    else none

/-- The moments at which somebody goes on. -/
def deadlines (rehearsal : Rehearsal) : List Nat :=
  let session := rehearsal.session
  let connection := match session.phase with
    | .starting => [session.settings.connectLimit.nanoseconds]
    | _ => []
  let watch := match session.monitor with
    | .resting _ _ _ wake => [wake]
    | _ => []
  let cancellation := match rehearsal.cancelling with
    | .planned time | .interruptAt time => [time]
    | _ => []
  rehearsal.wake :: connection ++ watch ++ cancellation

/-- Time passes up to the next moment at which somebody goes on. -/
def passTime (rehearsal : Rehearsal) : Option Rehearsal := do
  let clock := rehearsal.session.clock
  let next ← (rehearsal.deadlines.filter (clock < ·)).min?
  rehearsal.meet [.timePasses (next - clock)]

/-! ## The order -/

/-- The watch stands down before the others go on. -/
def standDown (rehearsal : Rehearsal) : Option Rehearsal :=
  match rehearsal.session.monitor with
  | .resting _ _ _ _ => rehearsal.advance .watch
  | _ => none

/-- The run goes on. While it opens the message log the other tasks come first. -/
def proceed (rehearsal : Rehearsal) (opening : Bool) : Option Rehearsal :=
  match rehearsal.session.phase with
  | .opening => if opening then rehearsal.advance .run else none
  | _ => if opening then none else rehearsal.advance .run

/-- Those who move, in their order. -/
def movers : List (Rehearsal → Option Rehearsal) :=
  [standDown, (proceed · false), (advance · .errorRelay), (advance · .watch), (proceed · true),
   (advance · .giveUp), (advance · .outputRelay), (advance · .inputRelay), answer, serve, cancel,
   (advance · .wake)]

/-- What has appeared on the error output between two states. -/
def appeared (before after : Session.State) : List Appearance :=
  let written := after.clientErrors.seen.take
    (after.clientErrors.seen.length - before.clientErrors.seen.length)
  let bytes := ({ seen := written : Sink }).accepted
  (after.events.drop before.events.length).map .report
    ++ if bytes.isEmpty then [] else [.bytes bytes]

/-- What happens next. Time passes only as long as the session goes on. -/
def next (rehearsal : Rehearsal) : Option Rehearsal := do
  let after ← (movers.findSome? (· rehearsal)).or
    (if rehearsal.session.result?.isSome then none else rehearsal.passTime)
  return { after with screen := (appeared rehearsal.session after.session).reverse ++ after.screen }

/-- All that happens within so many turns. -/
def play : Nat → Rehearsal → Rehearsal
  | 0, rehearsal => rehearsal
  | turns + 1, rehearsal =>
    match rehearsal.next with
    | some after => play turns after
    | none => rehearsal

/-- The most turns of a rehearsal. -/
def turnLimit : Nat := 1000000

end Rehearsal

end LspProxy
