import LspProxy.Proofs.Frame.Pieces
import LspProxy.Proofs.Relay.Forwarding

/-!
# Delivery to the server

If nothing goes wrong on either side, the server gets what the interceptor makes of every message of
the client, in order, and nothing else. The two streams may cut their bytes wherever they like,
interrupt any number of reads and writes, and keep each other waiting. Bodies are arbitrary bytes; like
every body in memory, they have lengths that a header can state.
-/
namespace LspProxy.Relay

/-- A relay from a quiet client to an obliging server reads the client's stream to its end and delivers
all batches. Taken apart again, the bytes that the server has received are the messages of these
batches, each whole, with nothing between or behind them. If no message is one to intercept, these
bytes are the ones that the client has sent. -/
theorem forward_delivers {workspace : Workspace} {outlet : Outlet} {token : Token} {source : Source}
    {bodies : List Bytes} (sent : source.bytes = Frame.encodeAll bodies)
    (fits : ∀ body ∈ bodies, Frame.Fits body)
    (due : ∀ outcome ∈ Message.Interceptor.outcomes outlet.disk { workspace } bodies,
      ∀ body ∈ outcome.bodies, Frame.Fits body)
    (live : ¬ token.isCancelled) (quiet : ∀ arrival ∈ source, arrival.Quiet)
    (obliging : outlet.sink.Obliging) (unread : outlet.log.Unread outlet.disk) :
    let outcomes := Message.Interceptor.outcomes outlet.disk { workspace } bodies
    let run := outward (forward workspace outlet token source)
    ∃ received, run.2.accepted = outlet.sink.accepted ++ received ∧
      run.1 = .ok { ending := .exhausted, messages := Message.Outcome.count outcomes,
                    bytes := received.length } ∧
      Frame.drain received = (outcomes.flatMap Message.Outcome.bodies, []) ∧
      ((∀ body ∈ bodies, Message.intercepted? body = none) → received = source.bytes) := by
  intro outcomes run
  obtain ⟨handed, ending, hands⟩ := Frame.Reader.handsOut_exists { source, token }
  obtain ⟨residual, rfl⟩ := hands.closed_of_quiet live quiet
  have drained : (Frame.drain source.beforeEnd).1 = handed := hands.drained.1
  rw [Source.beforeEnd_of_quiet quiet, sent, Frame.drain_encodeAll fits] at drained
  obtain rfl : bodies = handed := drained
  have relayed : run = _ := outward_forwardFrom_handsOut hands { workspace } outlet {}
  rw [treatments_of_unread unread] at relayed
  change run = settle (Totals.addAll {} outcomes) (.closed residual)
    (outlet.sink.deliverEach (outcomes.map Message.Outcome.frames)) at relayed
  have smooth := obliging.deliverEach (outcomes.map Message.Outcome.frames)
  obtain ⟨taken, _, accepted, complete⟩ :=
    outlet.sink.deliverEach_accepted (outcomes.map Message.Outcome.frames)
  have whole : taken = Message.Outcome.wires outcomes :=
    (complete smooth).trans (Message.Outcome.flatten_frames outcomes)
  subst whole
  refine ⟨Message.Outcome.wires outcomes, ?_, ?_, ?_, ?_⟩
  · rw [relayed, settle_accepted, accepted]
  · rw [relayed]
    rcases delivered : outlet.sink.deliverEach (outcomes.map Message.Outcome.frames) with
      ⟨failure | _, after⟩
    · rw [delivered] at smooth
      exact absurd smooth (by simp)
    · change Except.ok (Totals.addAll {} outcomes) = _
      simp only [Totals.addAll_eq, Nat.zero_add]
  · rw [Message.Outcome.wires_eq_encodeAll]
    refine Frame.drain_encodeAll fun body member => ?_
    obtain ⟨outcome, among, inside⟩ := List.mem_flatMap.mp member
    exact due outcome among body inside
  · intro plain
    rw [Message.Outcome.wires_eq_encodeAll, Message.Interceptor.outcomes_plain plain, sent]

/-- A body that is no message of the protocol, in two reads with an interrupted one between them, sent
on to a server that takes a byte, is interrupted, and takes two bytes at a time after that. -/
theorem forward_delivers_in_portions :
    let workspace : Workspace := { projects := ["a"] }
    let sink : Sink := { chunk := some 2, turns := [.takes 1, .fails (.plain .interrupted)] }
    let outlet : Outlet := { sink, log := {}, disk := {} }
    let bodies := [Bytes.ascii "ping"]
    let source : Source := [.data ((Frame.encodeAll bodies).take 7), .waiting,
      .failure (.plain .interrupted), .data ((Frame.encodeAll bodies).drop 7)]
    let outcomes := Message.Interceptor.outcomes outlet.disk { workspace } bodies
    let run := outward (forward workspace outlet .clear source)
    source.bytes = Frame.encodeAll bodies ∧ (∀ body ∈ bodies, Frame.Fits body) ∧
      (∀ outcome ∈ outcomes, ∀ body ∈ outcome.bodies, Frame.Fits body) ∧
      ¬ Token.clear.isCancelled ∧ (∀ arrival ∈ source, arrival.Quiet) ∧ outlet.sink.Obliging ∧
      outlet.log.Unread outlet.disk ∧
      ∃ received, run.2.accepted = outlet.sink.accepted ++ received ∧
        run.1 = .ok { ending := .exhausted, messages := Message.Outcome.count outcomes,
                      bytes := received.length } ∧
        Frame.drain received = (outcomes.flatMap Message.Outcome.bodies, []) ∧
        ((∀ body ∈ bodies, Message.intercepted? body = none) → received = source.bytes) := by
  intro workspace sink outlet bodies source outcomes run
  have sent : source.bytes = Frame.encodeAll bodies := by decide
  have fits : ∀ body ∈ bodies, Frame.Fits body := by decide
  have due : ∀ outcome ∈ outcomes, ∀ body ∈ outcome.bodies, Frame.Fits body := by decide
  have quiet : ∀ arrival ∈ source, arrival.Quiet := by decide
  have obliging : outlet.sink.Obliging := ⟨by decide, by decide, rfl, rfl⟩
  have unread : outlet.log.Unread outlet.disk := MessageLog.unread_disabled _
  have live : ¬ Token.clear.isCancelled := by decide
  exact ⟨sent, fits, due, live, quiet, obliging, unread,
    forward_delivers sent fits due live quiet obliging unread⟩

end LspProxy.Relay
