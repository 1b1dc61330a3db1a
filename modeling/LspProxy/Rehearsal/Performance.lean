import LspProxy.Rehearsal.Basic
import LspProxy.Rehearsal.Stage

/-!
# Performances

A performance is a session rehearsed from its beginning to its end, and what is left to see of it: its
result, the files, what the client got, what the peer received, and all that appeared on the error
output in order. A session that cannot be started has a result too.
-/
namespace LspProxy.Rehearsal

/-- What is left to see of a session. -/
structure Performance where
  /-- The result, if the session came to one. -/
  result : Option (Except Session.Fault Session.Outcome)
  disk : Disk
  output : Bytes := []
  errors : Bytes := []
  received : Bytes := []
  screen : List Appearance

/-- The reports among what appeared. -/
def Performance.reports (performance : Performance) : List Log.Event :=
  performance.screen.filterMap fun appearance =>
    match appearance with
    | .report event => some event
    | .bytes _ => none

/-- What the server does, `again` being what it does where it is the proxy itself with some arguments. That is
known only of a proxy that nothing is put into. -/
def serverActions (again : List Bytes → Option Action) (session : Session.State) (process : Nat) :
    List Action :=
  let settings := session.settings
  let itself := if settings.program = ownProgram ∧ settings.endpoint ≠ .standard
    then again settings.serverArguments
    else none
  match itself with
  | some action => [action]
  | none => programActions session.disk process settings.program settings.serverArguments

/-- Rehearse a session whose server may be the proxy itself. -/
def performAgain (again : List Bytes → Option Action) (beginning : Session.Beginning)
    (parts : Option (List Part)) (cancelling : Cancelling) : Performance :=
  let started := Session.start beginning
  let screen := started.events.map Appearance.report
  match started.value with
  | (.error fault, disk) => { result := some (.error fault), disk, screen }
  | (.ok session, _) =>
    let rehearsal : Rehearsal :=
      { session
        actions := serverActions again session beginning.process
        peer := parts.map fun parts => { parts }
        cancelling }
    let last := rehearsal.play turnLimit
    { result := last.session.result?
      disk := last.session.disk
      output := last.session.clientOutput.accepted
      errors := last.session.clientErrors.accepted
      received := (last.peer.map (·.received)).getD []
      screen := screen ++ last.screen.reverse }

/-- Rehearse a session. -/
def perform (beginning : Session.Beginning) (parts : Option (List Part)) (cancelling : Cancelling) :
    Performance :=
  performAgain (fun _ => none) beginning parts cancelling

end LspProxy.Rehearsal
