import LspProxy.Relay.Client

/-!
# The batches due to the server

What goes to the server for a message is a batch: the frame of the message as the interceptor forwards
it, and behind it the frames of the orders injected after it. Batches follow one another, and the
interceptor goes from each message to the next.

The file system is carried along as well, because each frame is recorded in the log once it is sent,
and the log is a file. Unless that file is one that a diagnostic request asks about, this makes no
difference, and the batches are those of the interceptor alone.
-/
namespace LspProxy

namespace Message

namespace Outcome

/-- The messages that go to the server for one message of the client, in order. -/
def bodies (outcome : Outcome) : List Bytes := outcome.forward :: outcome.inject

/-- The frames of these messages. -/
def frames (outcome : Outcome) : List Bytes := outcome.bodies.map Frame.encode

/-- The bytes of these frames, one after the other. -/
def wire (outcome : Outcome) : Bytes := Frame.encodeAll outcome.bodies

/-- The bytes of several batches, one after the other. -/
def wires (outcomes : List Outcome) : Bytes := (outcomes.map wire).flatten

/-- How many messages several batches are made of: for each, one forwarded and those injected. -/
def count : List Outcome → Nat
  | [] => 0
  | outcome :: outcomes => 1 + outcome.inject.length + count outcomes

/-- The frames of several batches make up their bytes. -/
theorem flatten_frames (outcomes : List Outcome) :
    (outcomes.map frames).flatten.flatten = wires outcomes := by
  rw [List.flatten_flatten, List.map_map]
  rfl

/-- The first batches are the first of the bytes. -/
theorem wires_take_isPrefix (outcomes : List Outcome) (count : Nat) :
    wires (outcomes.take count) <+: wires outcomes := by
  refine ⟨wires (outcomes.drop count), ?_⟩
  unfold wires
  rw [← List.flatten_append, ← List.map_append, List.take_append_drop]

/-- The bytes of several batches are the frames of all their messages. -/
theorem wires_eq_encodeAll (outcomes : List Outcome) :
    wires outcomes = Frame.encodeAll (outcomes.flatMap bodies) := by
  induction outcomes with
  | nil => rfl
  | cons outcome outcomes inductionHypothesis =>
    have joined : wires (outcome :: outcomes) = outcome.wire ++ wires outcomes := List.flatten_cons
    rw [joined, inductionHypothesis, List.flatMap_cons]
    simp [wire, Frame.encodeAll]

end Outcome

/-- The interceptor reads the file system only to widen a request. -/
theorem Interceptor.process_congr {disk disk' : Disk} {body : Bytes}
    (same : widen disk body = widen disk' body) (interceptor : Interceptor) :
    interceptor.process disk body = interceptor.process disk' body := by
  have expanded : expand disk body = expand disk' body := by
    unfold expand
    rw [same]
  have forwarded : widened disk body = widened disk' body := by
    unfold widened
    rw [expanded]
  unfold process
  rw [forwarded]

/-- A message of neither kind goes to the server as it came, and changes nothing for the others. -/
theorem Interceptor.process_plain {body : Bytes} (plain : intercepted? body = none) (disk : Disk)
    (interceptor : Interceptor) :
    (interceptor.process disk body).value = ({ forward := body }, interceptor) := by
  unfold process
  rw [plain]
  rfl

/-- What goes to the server for messages treated one after the other. -/
def Interceptor.outcomes (disk : Disk) (interceptor : Interceptor) (bodies : List Bytes) :
    List Outcome :=
  (interceptor.processAll disk bodies).value.map Prod.fst

/-- If no message is of either kind, the messages that go to the server are those of the client. -/
theorem Interceptor.outcomes_plain {bodies : List Bytes}
    (plain : ∀ body ∈ bodies, intercepted? body = none) (disk : Disk) (interceptor : Interceptor) :
    (interceptor.outcomes disk bodies).flatMap Outcome.bodies = bodies := by
  induction bodies with
  | nil => rfl
  | cons body later inductionHypothesis =>
    obtain ⟨first, others⟩ := List.forall_mem_cons.mp plain
    have behind := inductionHypothesis others
    unfold outcomes at behind ⊢
    simp only [processAll, Log.Logged.value_bind, Log.Logged.value_pure, process_plain first,
      List.map_cons, List.flatMap_cons, behind]
    rfl

end Message

namespace Relay

/-- The log and the file system once frames have been recorded, one after the other. -/
def MessageLog.recorded (disk : Disk) (log : MessageLog) : List Bytes → MessageLog × Disk
  | [] => (log, disk)
  | wire :: wires =>
    let next := (log.record disk wire).value
    next.1.recorded next.2 wires

/-- The log is a file that no request can ask about, or there is none: however many frames have been
recorded, every request is widened as if none had been. -/
def MessageLog.Unread (disk : Disk) (log : MessageLog) : Prop :=
  ∀ frames body, Message.widen (log.recorded disk frames).2 body = Message.widen disk body

/-- Frames recorded after others. -/
theorem MessageLog.recorded_append (disk : Disk) (log : MessageLog) (front back : List Bytes) :
    log.recorded disk (front ++ back) =
      (log.recorded disk front).1.recorded (log.recorded disk front).2 back := by
  induction front generalizing disk log with
  | nil => rfl
  | cons wire front inductionHypothesis => exact inductionHypothesis _ _

/-- A log without a file takes no frames. -/
theorem MessageLog.recorded_of_path_eq_none {log : MessageLog} (disabled : log.path = none) (disk : Disk)
    (wires : List Bytes) : log.recorded disk wires = (log, disk) := by
  induction wires with
  | nil => rfl
  | cons wire wires inductionHypothesis =>
    have same : (log.record disk wire).value = (log, disk) := by
      unfold record
      rw [disabled]
      rfl
    rw [recorded, same]
    exact inductionHypothesis

/-- Without a log nothing is written. -/
theorem MessageLog.recorded_disabled (disk : Disk) (wires : List Bytes) :
    MessageLog.recorded disk {} wires = ({}, disk) :=
  recorded_of_path_eq_none rfl disk wires

/-- So a log that is not there is not read. -/
theorem MessageLog.unread_disabled (disk : Disk) : MessageLog.Unread disk {} := by
  intro frames body
  rw [recorded_disabled]

/-- What the interceptor makes of messages, one after the other, each on the file system that the log
of the batches before has left. -/
def treatments (interceptor : Message.Interceptor) (log : MessageLog) (disk : Disk) :
    List Bytes → List Message.Outcome
  | [] => []
  | body :: bodies =>
    let treated := (interceptor.process disk body).value
    let next := log.recorded disk treated.1.frames
    treated.1 :: treatments treated.2 next.1 next.2 bodies

/-- Treating the first messages gives the first outcomes. -/
theorem treatments_take (interceptor : Message.Interceptor) (log : MessageLog) (disk : Disk)
    (bodies : List Bytes) (count : Nat) :
    treatments interceptor log disk (bodies.take count) =
      (treatments interceptor log disk bodies).take count := by
  induction bodies generalizing interceptor log disk count with
  | nil => simp [treatments]
  | cons body bodies inductionHypothesis =>
    cases count with
    | zero => rfl
    | succ count =>
      simp only [List.take_succ_cons, treatments]
      rw [inductionHypothesis]

/-- There is one outcome for each message. -/
theorem treatments_length (interceptor : Message.Interceptor) (log : MessageLog) (disk : Disk)
    (bodies : List Bytes) : (treatments interceptor log disk bodies).length = bodies.length := by
  induction bodies generalizing interceptor log disk with
  | nil => rfl
  | cons body bodies inductionHypothesis =>
    simp only [treatments, List.length_cons]
    rw [inductionHypothesis]

/-- Where the log is not read, the outcomes are those of the interceptor on the file system as it was.
The induction keeps hold of that file system while frames are recorded: after any of them, more frames
still leave every request as it was. -/
theorem treatments_of_unread {log : MessageLog} {disk : Disk} (unread : log.Unread disk)
    (interceptor : Message.Interceptor) (bodies : List Bytes) :
    treatments interceptor log disk bodies = interceptor.outcomes disk bodies := by
  suffices general : ∀ (log' : MessageLog) (disk' : Disk),
      (∀ frames body, Message.widen (log'.recorded disk' frames).2 body = Message.widen disk body) →
      treatments interceptor log' disk' bodies = interceptor.outcomes disk bodies from
    general log disk unread
  induction bodies generalizing interceptor with
  | nil => intro log' disk' same; rfl
  | cons body bodies inductionHypothesis =>
    intro log' disk' same
    have treated := Message.Interceptor.process_congr (same [] body) interceptor
    change interceptor.process disk' body = interceptor.process disk body at treated
    simp only [treatments, Message.Interceptor.outcomes, Message.Interceptor.processAll,
      Log.Logged.value_bind, Log.Logged.value_pure, List.map_cons]
    rw [treated, inductionHypothesis]
    rfl
    intro frames other
    rw [← MessageLog.recorded_append]
    exact same _ other

/-- Totals with several batches more. -/
def Totals.addAll (totals : Totals) (outcomes : List Message.Outcome) : Totals :=
  outcomes.foldl (fun totals outcome => totals.add outcome outcome.wire.length) totals

/-- Totals count the messages and the bytes of the batches, and adding to them does not end the
relay. -/
theorem Totals.addAll_eq (totals : Totals) (outcomes : List Message.Outcome) :
    totals.addAll outcomes =
      { ending := totals.ending
        messages := totals.messages + Message.Outcome.count outcomes
        bytes := totals.bytes + (Message.Outcome.wires outcomes).length } := by
  induction outcomes generalizing totals with
  | nil => rfl
  | cons outcome outcomes inductionHypothesis =>
    have later := inductionHypothesis (totals.add outcome outcome.wire.length)
    unfold Totals.addAll Message.Outcome.wires at later ⊢
    rw [List.foldl_cons, later]
    simp only [Totals.add, Message.Outcome.count, List.map_cons, List.flatten_cons,
      List.length_append, Totals.mk.injEq, true_and]
    omega

end Relay

end LspProxy
