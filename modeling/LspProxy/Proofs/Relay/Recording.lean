import LspProxy.Proofs.Disk.Parents
import LspProxy.Proofs.Relay.Closing

/-!
# What the message log holds

Each use of the server's stream that sends a frame is followed by a record of it. So at every moment, which is
after some of the uses, the log is one that has been given the frames sent by then and no others
(`useAll_eq`), and a relay leaves it as its uses do (`forward_useAll`). If the log is a file, what it holds is
what it held when it was opened, and behind it as much of these frames as the log comes to before it breaks
down (`recorded_regular`).

Opening a log adds folders and a file where they are missing, and leaves a file that is there as it is.
-/
namespace LspProxy

namespace Frame

/-- The frame that a use of the stream has sent. -/
def WriterAnswer.frame? : WriterAnswer → Option Bytes
  | .sent wire => some wire
  | .done | .failed _ => none

/-- The frames that uses of a stream send. -/
def sent (sink : Sink) (calls : List WriterCall) : List Bytes :=
  (performAll sink calls).1.filterMap WriterAnswer.frame?

end Frame

namespace Relay

namespace MessageLog

variable {disk : Disk} {path : Path} {path? : Option Path} {mishap : Mishap} {content : Bytes}

/-! ## Opening -/

theorem openFile_grown (disk : Disk) (path : Path) (refusal : Option Failure) :
    disk.Grown (openFile disk path refusal).2 := by
  have folders : disk.Grown (disk.ensureParent path).2 := disk.makeFolders_grown _
  unfold openFile
  split
  · rename_i failure middle made
    rw [made] at folders
    exact folders
  · rename_i middle made
    rw [made] at folders
    split
    · exact folders
    · split
      · exact folders
      · rename_i after opened
        exact folders.trans (Disk.append_nil_grown opened)

/-- A log is opened at the path that is asked for or not at all, and on the file system that opening its
file leaves. -/
theorem start_cases (disk : Disk) (path? : Option Path) (mishap : Mishap) :
    (start disk path? mishap).value = ({}, disk) ∧ path? = none ∨
      ∃ path, path? = some path ∧ (start disk path? mishap).value.2 = (openFile disk path mishap.refusal).2 ∧
        ((start disk path? mishap).value.1 = {} ∨
          (start disk path? mishap).value.1 = { path := some path, breakdown := mishap.breakdown }) := by
  cases path? with
  | none => exact .inl ⟨rfl, rfl⟩
  | some path =>
    refine .inr ⟨path, rfl, ?_⟩
    simp only [start]
    rcases openFile disk path mishap.refusal with ⟨failure | _, after⟩
    · exact ⟨rfl, .inl rfl⟩
    · exact ⟨rfl, .inr rfl⟩

/-- Opening a log is an addition to the file system, be it opened or not. -/
theorem start_grown (disk : Disk) (path? : Option Path) (mishap : Mishap) :
    disk.Grown (start disk path? mishap).value.2 := by
  rcases start_cases disk path? mishap with ⟨same, _⟩ | ⟨path, _, same, _⟩
  · rw [same]
    exact .refl disk
  · rw [same]
    exact openFile_grown disk path mishap.refusal

/-- A file that is there when it is opened is left as it is. -/
theorem start_regular (held : disk.regular? path = some content) (mishap : Mishap) :
    (start disk (some path) mishap).value.2.regular? path = some content := by
  obtain ⟨place, name, executable, found⟩ := Disk.regular?_eq_some_iff.mp held
  have opening : (openFile disk path mishap.refusal).2.regular? path = some content := by
    obtain ⟨after, appended, regular⟩ := Disk.append_regular held []
    rw [List.append_nil] at regular
    unfold openFile
    rw [Disk.ensureParent_of_leaf found]
    cases mishap.refusal with
    | some failure => exact held
    | none =>
      simp only [appended]
      exact regular
  rcases start_cases disk (some path) mishap with ⟨_, impossible⟩ | ⟨_, same, opened, _⟩
  · exact absurd impossible (by simp)
  · obtain rfl := Option.some.inj same
    rw [opened]
    exact opening

/-- A log is opened at its path by making the folders on the way to it and then writing nothing to it. -/
theorem start_enabled (enabled : (start disk path? mishap).value.1.path = some path) :
    (disk.ensureParent path).2.append path [] = .ok (start disk path? mishap).value.2 := by
  cases path? with
  | none => exact nomatch enabled
  | some asked =>
    simp only [start] at enabled ⊢
    rcases opening : openFile disk asked mishap.refusal with ⟨failure | _, after⟩
    · rw [opening] at enabled
      exact nomatch enabled
    · rw [opening] at enabled
      obtain rfl : asked = path := Option.some.inj enabled
      unfold openFile at opening
      split at opening
      · exact nomatch opening
      · rename_i middle made
        split at opening
        · exact nomatch opening
        · split at opening
          · exact nomatch opening
          · rename_i appended
            rw [made, appended, (Prod.mk.inj opening).2]
            rfl

/-- What the file of a log holds when it has been opened is what was in it once there were the folders on the
way, or nothing. -/
theorem start_held (enabled : (start disk path? mishap).value.1.path = some path)
    (held : (start disk path? mishap).value.2.regular? path = some content) :
    content = ((disk.ensureParent path).2.regular? path).getD [] :=
  Disk.append_nil_held (start_enabled enabled) held

/-! ## Recording -/

theorem write_cases (disk : Disk) (path : Path) (wire : Bytes) (breakdown? : Option Breakdown) :
    (write disk path wire breakdown?).2 = disk ∨
      ∃ bytes, disk.append path bytes = .ok (write disk path wire breakdown?).2 := by
  unfold write
  split
  all_goals
    split
    · rename_i appended
      exact .inr ⟨_, appended⟩
    · exact .inl rfl

/-- A record leaves the file system as it is or adds some bytes to the file of the log. The log goes on
writing to this file or to none. -/
theorem record_cases {log : MessageLog} (enabled : log.path = some path) (disk : Disk) (wire : Bytes) :
    let next := (log.record disk wire).value
    (next.2 = disk ∨ ∃ bytes, disk.append path bytes = .ok next.2) ∧
      ∀ other, next.1.path = some other → other = path := by
  intro next
  have written := write_cases disk path wire log.breakdown
  have recorded : next = (log.record disk wire).value := rfl
  unfold record at recorded
  simp only [enabled] at recorded
  rcases result : write disk path wire log.breakdown with ⟨failure | later, after⟩
  · rw [result] at written recorded
    rw [recorded]
    exact ⟨written, fun _ impossible => absurd impossible (by simp)⟩
  · rw [result] at written recorded
    rw [recorded]
    exact ⟨written, fun other same => (Option.some.inj same).symm⟩

/-- As much of the frames given to a log as gets into its file. -/
def recordable : Option Breakdown → List Bytes → Bytes
  | none, frames => frames.flatten
  | some breakdown, frames =>
    (frames.take breakdown.after).flatten ++ (frames[breakdown.after]?.getD []).take breakdown.written

/-- It is a beginning of the frames. -/
theorem recordable_isPrefix (breakdown? : Option Breakdown) (frames : List Bytes) :
    recordable breakdown? frames <+: frames.flatten := by
  cases breakdown? with
  | none => exact List.prefix_refl _
  | some breakdown =>
    have parts : frames.flatten = (frames.take breakdown.after).flatten ++
        (frames.drop breakdown.after).flatten := by
      rw [← List.flatten_append, List.take_append_drop]
    rw [parts, recordable, ← List.head?_drop]
    refine List.prefix_append_right_inj _ |>.mpr ?_
    cases frames.drop breakdown.after with
    | nil => simp
    | cons first later => exact (List.take_prefix _ _).trans (List.prefix_append _ _)

/-- Before the breakdown it is all of them. -/
theorem recordable_of_le {breakdown? : Option Breakdown} {frames : List Bytes}
    (well : ∀ breakdown, breakdown? = some breakdown → frames.length ≤ breakdown.after) :
    recordable breakdown? frames = frames.flatten := by
  cases breakdown? with
  | none => rfl
  | some breakdown =>
    have few := well breakdown rfl
    simp [recordable, List.take_of_length_le few, List.getElem?_eq_none few]

/-- One frame more, for a log that is a file: what gets into the file of it and of those behind it. -/
theorem record_regular (held : disk.regular? path = some content) (breakdown? : Option Breakdown)
    (wire : Bytes) :
    ∃ log after, ((⟨some path, breakdown?⟩ : MessageLog).record disk wire).value = (log, after) ∧
      ∃ written, after.regular? path = some (content ++ written) ∧
        ((log = {} ∧ ∀ wires, recordable breakdown? (wire :: wires) = written) ∨
          ∃ later, log = ⟨some path, later⟩ ∧
            ∀ wires, recordable breakdown? (wire :: wires) = written ++ recordable later wires) := by
  unfold record
  rcases breakdown? with _ | ⟨_ | count, part, failure⟩
  · obtain ⟨after, appended, regular⟩ := Disk.append_regular held wire
    simp only [write, appended]
    exact ⟨_, after, rfl, wire, regular, .inr ⟨none, rfl, fun wires => rfl⟩⟩
  · obtain ⟨after, appended, regular⟩ := Disk.append_regular held (wire.take part)
    simp only [write, appended]
    exact ⟨_, after, rfl, wire.take part, regular, .inl ⟨rfl, fun wires => by simp [recordable]⟩⟩
  · obtain ⟨after, appended, regular⟩ := Disk.append_regular held wire
    simp only [write, appended]
    exact ⟨_, after, rfl, wire, regular, .inr ⟨some ⟨count, part, failure⟩, rfl,
      fun wires => by simp [recordable]⟩⟩

/-- What the file of a log holds when frames have been recorded. -/
theorem recorded_regular (held : disk.regular? path = some content) (breakdown? : Option Breakdown)
    (wires : List Bytes) :
    ((⟨some path, breakdown?⟩ : MessageLog).recorded disk wires).2.regular? path =
      some (content ++ recordable breakdown? wires) := by
  induction wires generalizing disk content breakdown? with
  | nil =>
    have nothing : recordable breakdown? [] = [] := by
      cases breakdown? <;> simp [recordable]
    rw [nothing, List.append_nil]
    exact held
  | cons wire wires inductionHypothesis =>
    obtain ⟨log, after, recorded, written, regular, ⟨rfl, last⟩ | ⟨later, rfl, behind⟩⟩ :=
      record_regular held breakdown? wire
    · rw [MessageLog.recorded, recorded, last]
      simp only [recorded_disabled]
      exact regular
    · rw [MessageLog.recorded, recorded, behind, ← List.append_assoc]
      exact inductionHypothesis regular later

end MessageLog

/-! ## Moments -/

namespace Outlet

/-- Make one use of the server's stream, and record the frame that is sent by it. -/
def use (outlet : Outlet) (call : Frame.WriterCall) : Outlet :=
  let (answer, sink) := call.perform outlet.sink
  match answer.frame? with
  | some wire =>
    let next := (outlet.log.record outlet.disk wire).value
    ⟨sink, next.1, next.2⟩
  | none => { outlet with sink }

/-- Make several uses, one after the other. -/
def useAll (outlet : Outlet) (calls : List Frame.WriterCall) : Outlet := calls.foldl use outlet

theorem useAll_append (outlet : Outlet) (front back : List Frame.WriterCall) :
    outlet.useAll (front ++ back) = (outlet.useAll front).useAll back := List.foldl_append

/-- The log is given the frames that have been sent, and no others. -/
theorem useAll_eq (outlet : Outlet) (calls : List Frame.WriterCall) :
    outlet.useAll calls =
      let recorded := outlet.log.recorded outlet.disk (Frame.sent outlet.sink calls)
      ⟨(Frame.performAll outlet.sink calls).2, recorded.1, recorded.2⟩ := by
  induction calls generalizing outlet with
  | nil => rfl
  | cons call calls inductionHypothesis =>
    have behind : outlet.useAll (call :: calls) = (outlet.use call).useAll calls := rfl
    rw [behind, inductionHypothesis]
    simp only [use, Frame.sent, Frame.performAll, List.filterMap_cons]
    rcases call.perform outlet.sink with ⟨answer, sink⟩
    cases answer.frame? with
    | none => rfl
    | some wire => rfl

/-- Once there is no log, nothing is written any more. -/
theorem useAll_disabled {outlet : Outlet} (disabled : outlet.log.path = none)
    (calls : List Frame.WriterCall) : (outlet.useAll calls).disk = outlet.disk := by
  rw [useAll_eq, MessageLog.recorded_of_path_eq_none disabled]

theorem send_use (outlet : Outlet) (body : Bytes) :
    (outlet.send body).value.2 = outlet.use (.write body) := by
  simp only [send, use, Frame.WriterCall.perform]
  rcases Frame.send outlet.sink body with ⟨failure | wire, sink⟩
  · rfl
  · rfl

theorem flush_use (outlet : Outlet) :
    outlet.use .flush = { outlet with sink := outlet.sink.flush.2 } := by
  simp only [use, Frame.WriterCall.perform]
  rcases outlet.sink.flush with ⟨failure | _, sink⟩
  · rfl
  · rfl

/-- Sending bodies comes to the first of these uses, and to all of them on success. -/
theorem sendAll_useAll (outlet : Outlet) (bodies : List Bytes) :
    ∃ made, made <+: bodies.map Frame.WriterCall.write ∧
      (outlet.sendAll bodies).value.2 = outlet.useAll made ∧
      ∀ total, (outlet.sendAll bodies).value.1 = .ok total → made = bodies.map Frame.WriterCall.write := by
  induction bodies generalizing outlet with
  | nil => exact ⟨[], List.prefix_refl _, rfl, fun _ _ => rfl⟩
  | cons body bodies inductionHypothesis =>
    have one := outlet.send_use body
    simp only [sendAll, Log.Logged.value_bind]
    rcases sent : (outlet.send body).value with ⟨failure | length, after⟩
    · rw [sent] at one
      exact ⟨[.write body], ⟨_, rfl⟩, one, fun _ impossible => absurd impossible (by simp)⟩
    · rw [sent] at one
      obtain rfl : after = outlet.use (.write body) := one
      obtain ⟨made, begins, others, complete⟩ := inductionHypothesis (outlet.use (.write body))
      refine ⟨.write body :: made, List.cons_prefix_cons.mpr ⟨rfl, begins⟩, ?_⟩
      simp only [Log.Logged.value_bind]
      rcases rest : ((outlet.use (.write body)).sendAll bodies).value with ⟨failure | total, final⟩
      · rw [rest] at others
        exact ⟨others, fun _ impossible => absurd impossible (by simp)⟩
      · rw [rest] at others complete
        exact ⟨others, fun _ _ => congrArg _ (complete total rfl)⟩

/-- Delivering a batch comes to the first of its uses, and to all of them on success. -/
theorem deliver_useAll (outlet : Outlet) (outcome : Message.Outcome) :
    ∃ made, made <+: outcome.calls ∧ (outlet.deliver outcome).value.2 = outlet.useAll made ∧
      ∀ total, (outlet.deliver outcome).value.1 = .ok total → made = outcome.calls := by
  obtain ⟨made, begins, same, complete⟩ := outlet.sendAll_useAll outcome.bodies
  unfold Message.Outcome.bodies at same complete
  simp only [deliver, Log.Logged.value_bind]
  rcases sent : (outlet.sendAll (outcome.forward :: outcome.inject)).value with ⟨failure | total, after⟩
  · rw [sent] at same
    exact ⟨made, begins.trans (List.prefix_append _ _), same, fun _ impossible => absurd impossible (by simp)⟩
  · rw [sent] at same complete
    refine ⟨outcome.calls, List.prefix_refl _, ?_, fun _ _ => rfl⟩
    have whole : outlet.useAll outcome.calls = after.use .flush := by
      rw [Message.Outcome.calls, useAll_append, Message.Outcome.bodies, ← complete total rfl, ← same]
      rfl
    rw [whole, flush_use]
    simp only
    rcases after.sink.flush with ⟨failure | _, sink⟩
    · rfl
    · rfl

/-- Ending in order is to close the stream. -/
theorem finish_use (outlet : Outlet) (totals : Totals) :
    (outlet.finish totals).value.2 = outlet.use .shutdown := by
  simp only [finish, close, use, Frame.WriterCall.perform]
  rcases outlet.sink.shutdown with ⟨failure | _, sink⟩
  · rfl
  · rfl

end Outlet

/-- What one turn of the relay leaves: a message is treated and delivered, and the relay goes on unless the
delivery fails; a failed read leaves everything as it is, and anything else closes the stream. -/
theorem forwardFrom_outlet (interceptor : Message.Interceptor) (outlet : Outlet) (totals : Totals)
    (reader : Frame.Reader) :
    (forwardFrom interceptor outlet totals reader).value.2 =
      match reader.next with
      | (.message body, after) =>
        let treated := (interceptor.process outlet.disk body).value
        match (outlet.deliver treated.1).value with
        | (.error _, outlet) => outlet
        | (.ok bytes, outlet) =>
          (forwardFrom treated.2 outlet (totals.add treated.1 bytes) after).value.2
      | (.failed _, _) => outlet
      | (_, _) => outlet.use .shutdown := by
  rw [forwardFrom]
  split
  case h_1 read => rw [read, Outlet.finish_use]
  case h_2 read => rw [read, Outlet.finish_use]
  case h_3 read => rw [read]; rfl
  case h_4 residual after read =>
    rw [read]
    have closed := outlet.finish_use totals
    by_cases pending : residual > 0
    · simp only [pending, ↓reduceIte]
      exact closed
    · simp only [pending, ↓reduceIte]
      exact closed
  case h_5 body after read =>
    simp only [read, Log.Logged.value_bind]
    generalize (interceptor.process outlet.disk body).value = treated
    rcases delivered : (outlet.deliver treated.1).value with ⟨failure | bytes, next⟩
    · rfl
    · rfl

/-- A relay leaves the server's stream, the log and the file system as the uses do that it has made of the
stream: the first of those due for its batches, and then perhaps a shutdown. -/
theorem forwardFrom_useAll {reader : Frame.Reader} {bodies : List Bytes} {ending : Frame.Reading}
    (hands : reader.HandsOut bodies ending) (interceptor : Message.Interceptor) (outlet : Outlet)
    (totals : Totals) :
    ∃ made, made <+: (treatments interceptor outlet.log outlet.disk bodies).flatMap Message.Outcome.calls ++
        [.shutdown] ∧
      (forwardFrom interceptor outlet totals reader).value.2 = outlet.useAll made := by
  induction hands generalizing interceptor outlet totals with
  | @stopped reader after ending read noMessage =>
    rw [forwardFrom_outlet]
    cases ending with
    | message body => exact absurd rfl (noMessage body)
    | failed failure => exact ⟨[], List.nil_prefix, by simp only [read]; rfl⟩
    | closed residual => exact ⟨[.shutdown], List.prefix_refl _, by simp only [read]; rfl⟩
    | cancelled => exact ⟨[.shutdown], List.prefix_refl _, by simp only [read]; rfl⟩
    | abandoned => exact ⟨[.shutdown], List.prefix_refl _, by simp only [read]; rfl⟩
  | @message reader after body bodies ending read later inductionHypothesis =>
    rw [forwardFrom_outlet]
    simp only [read, treatments, List.flatMap_cons, List.append_assoc]
    generalize (interceptor.process outlet.disk body).value = treated
    obtain ⟨made, begins, same, complete⟩ := outlet.deliver_useAll treated.1
    have batch := outlet.deliver_value treated.1
    rcases delivered : (outlet.deliver treated.1).value with ⟨failure | bytes, next⟩
    · rw [delivered] at same
      exact ⟨made, begins.trans (List.prefix_append _ _), same⟩
    · rw [delivered] at same complete batch
      obtain rfl := complete bytes rfl
      rcases wrote : outlet.sink.deliver treated.1.frames with ⟨failure | _, sink⟩
      · rw [wrote] at batch
        obtain ⟨log, disk, failed⟩ := batch
        exact absurd (Prod.mk.inj failed).1 (by simp)
      · rw [wrote] at batch
        simp only at batch
        obtain ⟨more, further, rest⟩ :=
          inductionHypothesis treated.2 next (totals.add treated.1 bytes)
        obtain ⟨_, rfl⟩ := Prod.mk.inj batch
        refine ⟨treated.1.calls ++ more, List.prefix_append_right_inj _ |>.mpr further, ?_⟩
        rw [Outlet.useAll_append, ← same]
        exact rest

/-- The uses that a relay makes of the server's stream leave everything as the relay does. -/
theorem forward_useAll (workspace : Workspace) (outlet : Outlet) (token : Token) (source : Source) :
    ∃ bodies ending made,
      Frame.Reader.HandsOut { source, token } bodies ending ∧
      made <+: (treatments { workspace } outlet.log outlet.disk bodies).flatMap Message.Outcome.calls ++
        [.shutdown] ∧
      (forward workspace outlet token source).value.2 = outlet.useAll made := by
  obtain ⟨bodies, ending, hands⟩ := Frame.Reader.handsOut_exists { source, token }
  obtain ⟨made, begins, same⟩ := forwardFrom_useAll hands { workspace } outlet {}
  exact ⟨bodies, ending, made, hands, begins, same⟩

/-! ## The file of a log -/

/-- A relay's outlet whose log is opened first. -/
def Outlet.opened (sink : Sink) (disk : Disk) (path? : Option Path) (mishap : Mishap) : Outlet :=
  let log := (MessageLog.start disk path? mishap).value
  { sink, log := log.1, disk := log.2 }

/-- What a log comes to while uses are made of the server's stream, at each moment among them. Its file holds
what it held when the log was opened and a beginning of the frames sent by then: all of them before the log
breaks down, and those before the breakdown with a part of the next from then on. Once the log is given up,
or if it could not be opened, nothing is written. -/
structure Chronicle (opened : Outlet) (breakdown? : Option Breakdown) (made : List Frame.WriterCall) :
    Prop where
  holds : ∀ moment path held, opened.log.path = some path → opened.disk.regular? path = some held →
    let sent := Frame.sent opened.sink (made.take moment)
    let appended := MessageLog.recordable breakdown? sent
    (opened.useAll (made.take moment)).disk.regular? path = some (held ++ appended) ∧
      appended <+: sent.flatten ∧
      ((∀ breakdown, breakdown? = some breakdown → sent.length ≤ breakdown.after) →
        appended = sent.flatten)
  ends : ∀ moment later, moment ≤ later → (opened.useAll (made.take moment)).log.path = none →
    (opened.useAll (made.take later)).disk = (opened.useAll (made.take moment)).disk

/-- Whatever uses are made, this is what the log comes to. -/
theorem chronicle (sink : Sink) (disk : Disk) (path? : Option Path) (mishap : Mishap)
    (made : List Frame.WriterCall) :
    Chronicle (.opened sink disk path? mishap) mishap.breakdown made where
  holds := by
    intro moment path held enabled regular sent appended
    have log : (Outlet.opened sink disk path? mishap).log = ⟨some path, mishap.breakdown⟩ := by
      change (MessageLog.start disk path? mishap).value.1 = _
      change (MessageLog.start disk path? mishap).value.1.path = some path at enabled
      rcases MessageLog.start_cases disk path? mishap with ⟨same, _⟩ | ⟨_, _, _, same | same⟩
      · exact absurd enabled (by simp [same])
      · exact absurd enabled (by simp [same])
      · rw [same] at enabled ⊢
        rw [Option.some.inj enabled]
    refine ⟨?_, MessageLog.recordable_isPrefix _ _, MessageLog.recordable_of_le⟩
    rw [Outlet.useAll_eq, log]
    exact MessageLog.recorded_regular regular mishap.breakdown sent
  ends := by
    intro moment later notBefore disabled
    obtain ⟨more, parts⟩ : made.take moment <+: made.take later := List.take_prefix_take_left notBefore
    rw [← parts, Outlet.useAll_append, Outlet.useAll_disabled disabled]

end Relay

end LspProxy
