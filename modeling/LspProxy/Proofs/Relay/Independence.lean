import LspProxy.Proofs.Frame.Pieces
import LspProxy.Proofs.Message.Documents
import LspProxy.Proofs.Relay.Recording

/-!
# The relay does not depend on its log

The relay looks at the file system only to read the documents of diagnostic requests, and the log changes the
file system only where it is opened and written to. So two relays of the same messages to the same stream
differ in nothing but their logs, whatever becomes of these, as long as no document that is read is the file
of a log, or can be read only because a log has been opened. The argument carries along, for each document
that is still to be read, that it reads as it would without a log and that the log is beside it (`Steady`).

The second condition is not idle. Opening a log makes the folders that are missing on the way to its file, and
a document may be a link that leads through one of them and out again (`revealed_document_widened`).
-/
namespace LspProxy

namespace Message

/-- The file that a message asks about, if it is a diagnostic request whose URI leads to one. -/
def document? (body : Bytes) : Option Path :=
  match intercepted? body, parse DiagnosticRequest.read body with
  | some .diagnostic, .ok request => (documentPath request.params.textDocument.uri).toOption
  | _, _ => none

/-- The path that a URI stands for starts at the root. -/
theorem isAbsolute_toPath? {uri : Uri} {path : Path} (led : uri.toPath? = some path) :
    path.isAbsolute = true := by
  unfold Uri.toPath? at led
  split at led
  · rename_i local_
    obtain ⟨segment, segments, parts⟩ := List.exists_cons_of_ne_nil local_.2
    obtain rfl := Option.some.inj led
    rw [parts]
    unfold Uri.closeDrive
    split
    · split <;> rfl
    · rfl
  · exact absurd led (by simp)

theorem document?_isAbsolute {body : Bytes} {path : Path} (asks : document? body = some path) :
    path.isAbsolute = true := by
  unfold document? at asks
  split at asks
  · rename_i request _ _
    cases located : documentPath request.params.textDocument.uri with
    | error fault => exact absurd asks (by simp [located, Except.toOption])
    | ok found =>
      rw [located] at asks
      obtain rfl : found = path := Option.some.inj asks
      obtain ⟨uri, _, led⟩ := Uri.leadsTo_iff.mp (documentPath_eq_ok_iff.mp located)
      exact isAbsolute_toPath? led
  · exact absurd asks (by simp)

/-- A message that asks about a file goes on with the range of the file if that can be read, and else as it
came. -/
theorem forwarded_document {body : Bytes} {path : Path} (asks : document? body = some path) :
    ∃ request : DiagnosticRequest, ∀ disk : Disk, forwarded disk body =
      match disk.read path with
      | .ok content => Text.Utf8.encode (request.withRange (documentRange content)).print
      | .error _ => body := by
  unfold document? at asks
  split at asks
  · rename_i request kind reads
    cases located : documentPath request.params.textDocument.uri with
    | error fault => exact absurd asks (by simp [located, Except.toOption])
    | ok found =>
      rw [located] at asks
      obtain rfl : found = path := Option.some.inj asks
      refine ⟨request, fun disk => ?_⟩
      unfold forwarded
      rw [expand_request reads disk, located, kind]
      simp only
      cases disk.read found with
      | error failure => rfl
      | ok content => rfl
  · exact absurd asks (by simp)

/-- A message that asks about none goes on as it came. -/
theorem forwarded_of_document?_eq_none {body : Bytes} (asks : document? body = none) (disk : Disk) :
    forwarded disk body = body := by
  unfold forwarded
  split
  · rename_i kind widened
    obtain ⟨request, path, content, reads, located, _⟩ := expand_eq_ok_iff.mp widened
    exact absurd asks (by simp [document?, kind, reads, located, Except.toOption])
  · rfl

/-- A message goes on as before if what it asks about reads as before. -/
theorem forwarded_congr {disk disk' : Disk} {body : Bytes}
    (alike : ∀ path, document? body = some path → disk.ReadsAlike disk' path) :
    forwarded disk' body = forwarded disk body := by
  cases asks : document? body with
  | none => rw [forwarded_of_document?_eq_none asks, forwarded_of_document?_eq_none asks]
  | some path =>
    have same := alike path asks
    obtain ⟨request, goes⟩ := forwarded_document asks
    rw [goes, goes]
    cases read : disk.read path with
    | ok content => rw [(same content).mpr read]
    | error failure =>
      cases read' : disk'.read path with
      | error failure' => rfl
      | ok content => exact absurd ((same content).mp read') (by simp [read])

/-- So is it treated as before. -/
theorem Interceptor.process_of_readsAlike {disk disk' : Disk} {body : Bytes}
    (alike : ∀ path, document? body = some path → disk.ReadsAlike disk' path) (interceptor : Interceptor) :
    (interceptor.process disk' body).value = (interceptor.process disk body).value := by
  rw [process_value, process_value, forwarded_congr alike]

end Message

namespace Relay

/-- The document is read by a relay that keeps no log: it is asked about by a message that the reader hands
out, before which all batches have been delivered. -/
inductive Reads (disk : Disk) (document : Path) : Message.Interceptor → Sink → Frame.Reader → Prop
  | here {interceptor : Message.Interceptor} {sink : Sink} {reader after : Frame.Reader} {body : Bytes}
    (read : reader.next = (.message body, after)) (asks : Message.document? body = some document) :
    Reads disk document interceptor sink reader
  | later {interceptor : Message.Interceptor} {sink between : Sink} {reader after : Frame.Reader}
    {body : Bytes} (read : reader.next = (.message body, after))
    (delivered : sink.deliver (interceptor.process disk body).value.1.frames = (.ok (), between))
    (reads : Reads disk document (interceptor.process disk body).value.2 between after) :
    Reads disk document interceptor sink reader

/-- A document that is read is asked about by a message in the client's data. -/
theorem Reads.asked {disk : Disk} {document : Path} {interceptor : Message.Interceptor} {sink : Sink}
    {reader : Frame.Reader} (reads : Reads disk document interceptor sink reader) {bodies : List Bytes}
    {ending : Frame.Reading} (hands : reader.HandsOut bodies ending) :
    ∃ body ∈ bodies, Message.document? body = some document := by
  induction reads generalizing bodies with
  | here read asks =>
    cases hands with
    | stopped read' noMessage => exact absurd (Prod.mk.inj (read'.symm.trans read)).1 (noMessage _)
    | message read' later =>
      obtain ⟨same, _⟩ := Prod.mk.inj (read'.symm.trans read)
      obtain rfl := Frame.Reading.message.inj same
      exact ⟨_, List.mem_cons_self, asks⟩
  | later read delivered reads inductionHypothesis =>
    cases hands with
    | stopped read' noMessage => exact absurd (Prod.mk.inj (read'.symm.trans read)).1 (noMessage _)
    | message read' later =>
      obtain ⟨_, rfl⟩ := Prod.mk.inj (read'.symm.trans read)
      obtain ⟨body, among, asks⟩ := inductionHypothesis later
      exact ⟨body, List.mem_cons_of_mem _ among, asks⟩

/-- The log is beside the document, which reads as it would without a log. -/
structure Steady (disk : Disk) (log : MessageLog) (logged : Disk) (document : Path) : Prop where
  alike : disk.ReadsAlike logged document
  beside : ∀ path, log.path = some path → logged.Beside path document

namespace Steady

variable {disk logged : Disk} {log : MessageLog} {document : Path}

theorem record (steady : Steady disk log logged document) (absolute : document.isAbsolute = true)
    (wire : Bytes) :
    let next := (log.record logged wire).value
    Steady disk next.1 next.2 document := by
  intro next
  cases enabled : log.path with
  | none =>
    have same : next = (log, logged) := by
      change (log.record logged wire).value = _
      unfold MessageLog.record
      rw [enabled]
      rfl
    rw [same]
    exact steady
  | some path =>
    obtain ⟨same | ⟨bytes, appended⟩, onward⟩ := MessageLog.record_cases enabled logged wire
    · refine ⟨same ▸ steady.alike, fun other enabled' => ?_⟩
      rw [onward other enabled', same]
      exact steady.beside path enabled
    · obtain ⟨alike, beside⟩ := Disk.append_beside absolute (steady.beside path enabled) appended
      refine ⟨fun content => (alike content).trans (steady.alike content), fun other enabled' => ?_⟩
      rw [onward other enabled']
      exact beside

theorem recorded (steady : Steady disk log logged document) (absolute : document.isAbsolute = true)
    (wires : List Bytes) :
    let next := log.recorded logged wires
    Steady disk next.1 next.2 document := by
  induction wires generalizing log logged with
  | nil => exact steady
  | cons wire wires inductionHypothesis => exact inductionHypothesis (steady.record absolute wire)

end Steady

/-- What is seen of a relay is what is seen of it without its log, if the log is beside every document that
is read. -/
theorem outward_forwardFrom_steady {disk : Disk} {reader : Frame.Reader} {bodies : List Bytes}
    {ending : Frame.Reading} (hands : reader.HandsOut bodies ending) (interceptor : Message.Interceptor)
    (outlet : Outlet) (totals : Totals)
    (steady : ∀ document, Reads disk document interceptor outlet.sink reader →
      Steady disk outlet.log outlet.disk document) :
    outward (forwardFrom interceptor outlet totals reader) =
      outward (forwardFrom interceptor { sink := outlet.sink, log := {}, disk } totals reader) := by
  induction hands generalizing interceptor outlet totals with
  | @stopped reader after ending read noMessage =>
    rw [outward_forwardFrom, outward_forwardFrom]
    cases ending with
    | message body => exact absurd rfl (noMessage body)
    | closed residual => simp only [read]
    | failed failure => simp only [read]
    | cancelled => simp only [read]
    | abandoned => simp only [read]
  | @message reader after body bodies ending read later inductionHypothesis =>
    rw [outward_forwardFrom, outward_forwardFrom]
    have treated : (interceptor.process outlet.disk body).value = (interceptor.process disk body).value :=
      Message.Interceptor.process_of_readsAlike
        (fun document asks => (steady document (.here read asks)).alike) interceptor
    simp only [read, treated]
    have logged := outlet.deliver_value (interceptor.process disk body).value.1
    have unlogged := Outlet.deliver_value { sink := outlet.sink, log := {}, disk }
      (interceptor.process disk body).value.1
    rcases delivered : outlet.sink.deliver (interceptor.process disk body).value.1.frames with
      ⟨failure | _, between⟩
    · rw [delivered] at logged
      simp only [delivered] at unlogged
      obtain ⟨_, _, logged⟩ := logged
      obtain ⟨_, _, unlogged⟩ := unlogged
      rw [logged, unlogged]
    · rw [delivered] at logged
      simp only [delivered, MessageLog.recorded_disabled] at logged unlogged
      rw [logged, unlogged]
      refine inductionHypothesis _ _ _ fun document reads => ?_
      have absolute := Message.document?_isAbsolute (reads.asked later).choose_spec.2
      exact (steady document (.later read delivered reads)).recorded absolute _

/-- A log that is nothing to a document: it does not write to its file, and opening it has not made it
readable. -/
structure Harmless (disk : Disk) (opened : Outlet) (document : Path) : Prop where
  beside : ∀ path, opened.log.path = some path → opened.disk.Beside path document
  reveals : ∀ content, opened.disk.read document = .ok content → ∃ held, disk.read document = .ok held

/-- Opening a log changes nothing about a document that it is nothing to. -/
theorem Harmless.steady {disk : Disk} {sink : Sink} {path? : Option Path} {mishap : Mishap} {document : Path}
    (harmless : Harmless disk (.opened sink disk path? mishap) document)
    (absolute : document.isAbsolute = true) :
    Steady disk (Outlet.opened sink disk path? mishap).log (Outlet.opened sink disk path? mishap).disk
      document where
  alike := by
    have grown : disk.Grown (Outlet.opened sink disk path? mishap).disk :=
      MessageLog.start_grown disk path? mishap
    refine fun content => ⟨fun read => ?_, grown.read absolute⟩
    obtain ⟨held, before⟩ := harmless.reveals content read
    exact before.trans ((grown.read absolute before).symm.trans read)
  beside := harmless.beside

/-- What is seen of a relay is what is seen of it without a log, if the log is nothing to the documents that
it reads. -/
theorem outward_forward_opened {workspace : Workspace} {disk : Disk} {sink : Sink} {token : Token}
    {source : Source} {path? : Option Path} {mishap : Mishap}
    (harmless : ∀ document, Reads disk document { workspace } sink { source, token } →
      Harmless disk (.opened sink disk path? mishap) document) :
    outward (forward workspace (.opened sink disk path? mishap) token source) =
      outward (forward workspace { sink, log := {}, disk } token source) := by
  obtain ⟨bodies, ending, hands⟩ := Frame.Reader.handsOut_exists { source, token }
  refine outward_forwardFrom_steady hands { workspace } (.opened sink disk path? mishap) {} ?_
  intro document reads
  obtain ⟨body, _, asks⟩ := reads.asked hands
  exact (harmless document reads).steady (Message.document?_isAbsolute asks)

/-! ## One request -/

/-- A client's data that is one message. -/
def single (body : Bytes) : Source := [.data (Frame.encode body)]

/-- It is taken apart into this message. -/
theorem drain_single {body : Bytes} (fits : Frame.Fits body) :
    (Frame.drain (single body).bytes).1 = [body] := by
  have same : (single body).bytes = Frame.encodeAll [body] := by simp [single, Source.bytes, Frame.encodeAll]
  rw [same, Frame.drain_encodeAll (by simpa using fits)]

/-- A relay of one message reads what the message asks about. -/
theorem Reads.of_single {disk : Disk} {document : Path} {interceptor : Message.Interceptor} {sink : Sink}
    {body : Bytes} (fits : Frame.Fits body)
    (reads : Reads disk document interceptor sink { source := single body, token := .clear }) :
    Message.document? body = some document := by
  obtain ⟨bodies, ending, hands⟩ := Frame.Reader.handsOut_exists { source := single body, token := .clear }
  obtain ⟨asking, among, asks⟩ := reads.asked hands
  have first : bodies <+: (Frame.drain (single body).bytes).1 := hands.isPrefix
  rw [drain_single fits] at first
  obtain rfl := List.mem_singleton.mp (first.subset among)
  exact asks

/-- An obliging server receives what one message comes to. -/
theorem accepted_single {body : Bytes} (fits : Frame.Fits body) (workspace : Workspace) {outlet : Outlet}
    (obliging : outlet.sink.Obliging) :
    (outward (forward workspace outlet .clear (single body))).2.accepted =
      outlet.sink.accepted ++ (Message.Interceptor.process outlet.disk { workspace } body).value.1.wire := by
  obtain ⟨bodies, ending, hands⟩ := Frame.Reader.handsOut_exists { source := single body, token := .clear }
  have quiet : ∀ arrival ∈ single body, arrival.Quiet := by
    intro arrival among
    obtain rfl := List.mem_singleton.mp among
    change Frame.encode body ≠ []
    simp [Frame.encode, Frame.lineEnd]
  obtain ⟨residual, rfl⟩ := hands.closed_of_quiet (by decide : ¬ Token.clear.isCancelled = true) quiet
  have drained : (Frame.drain (single body).beforeEnd).1 = bodies := hands.drained.1
  rw [Source.beforeEnd_of_quiet quiet, drain_single fits] at drained
  subst drained
  have relayed : outward (forward workspace outlet .clear (single body)) = _ :=
    outward_forwardFrom_handsOut hands { workspace } outlet {}
  obtain ⟨taken, _, accepted, complete⟩ := outlet.sink.deliverEach_accepted
    ((treatments { workspace } outlet.log outlet.disk [body]).map Message.Outcome.frames)
  rw [complete (obliging.deliverEach _)] at accepted
  rw [relayed, settle_accepted, accepted, Message.Outcome.flatten_frames]
  simp [treatments, Message.Outcome.wires]

/-- A document, and a file that a log may be added to. -/
def loggedDisk : Disk :=
  { root := .leaf (Bytes.ascii "a.cs") (.file (Bytes.ascii "1\n22\n333") false)
      (.leaf (Bytes.ascii "x.log") (.file (Bytes.ascii "old") false) .empty) }

/-! ## Two logs -/

/-- Nothing that becomes of a log is seen of the relay, and the log is a copy of what is sent. Let there be two
logs, opened where and going wrong how they may, and let both be nothing to the documents that the relay would
read without a log. Then the relay ends with the same answer and totals with the one as with the other, and
leaves the server's stream as the same, with all that it has seen. As for the log itself:

- opening it leaves a file that is at its path as it is, and a file that it makes is empty;
- the relay leaves the log and its file as its uses of the server's stream do, those of its batches in their
  order, and at each moment among these uses the file holds what `Chronicle` says. -/
theorem relay_independent_of_log (workspace : Workspace) (disk : Disk) (sink : Sink) (token : Token)
    (source : Source) (path? path?' : Option Path) (mishap mishap' : Mishap)
    (harmless : ∀ document, Reads disk document { workspace } sink { source, token } →
      Harmless disk (.opened sink disk path? mishap) document ∧
        Harmless disk (.opened sink disk path?' mishap') document) :
    let opened := Outlet.opened sink disk path? mishap
    let run := forward workspace opened token source
    outward run = outward (forward workspace (.opened sink disk path?' mishap') token source) ∧
      (∀ path held, path? = some path → disk.regular? path = some held →
        opened.disk.regular? path = some held) ∧
      (∀ path held, opened.log.path = some path → opened.disk.regular? path = some held →
        held = ((disk.ensureParent path).2.regular? path).getD []) ∧
      ∃ bodies ending made,
        Frame.Reader.HandsOut { source, token } bodies ending ∧
        made <+: (treatments { workspace } opened.log opened.disk bodies).flatMap Message.Outcome.calls ++
          [.shutdown] ∧
        run.value.2 = opened.useAll made ∧ Chronicle opened mishap.breakdown made := by
  intro opened run
  refine ⟨?_, ?_, fun path held => MessageLog.start_held, ?_⟩
  · have first : outward run = _ := outward_forward_opened fun document reads => (harmless document reads).1
    have second := outward_forward_opened fun document reads => (harmless document reads).2
    exact first.trans second.symm
  · rintro path held rfl regular
    exact MessageLog.start_regular regular mishap
  · obtain ⟨bodies, ending, made, hands, begins, left⟩ := forward_useAll workspace opened token source
    exact ⟨bodies, ending, made, hands, begins, left, chronicle sink disk path? mishap made⟩

/-- A relay whose log breaks down in the middle of the first frame, and one without a log. -/
theorem relay_independent_of_broken_log :
    let source := single (Message.bodyAbout "file:///a.cs")
    let mishap : Mishap := { breakdown := some ⟨0, 7, .plain .brokenPipe⟩ }
    let opened := Outlet.opened {} loggedDisk (some (Bytes.ascii "x.log")) mishap
    let run := forward {} opened .clear source
    (∀ document, Reads loggedDisk document { workspace := {} } {} { source, token := .clear } →
        Harmless loggedDisk opened document ∧
          Harmless loggedDisk (.opened {} loggedDisk none {}) document) ∧
      outward run = outward (forward {} (.opened {} loggedDisk none {}) .clear source) ∧
      (∀ path held, some (Bytes.ascii "x.log") = some path → loggedDisk.regular? path = some held →
        opened.disk.regular? path = some held) ∧
      (∀ path held, opened.log.path = some path → opened.disk.regular? path = some held →
        held = ((loggedDisk.ensureParent path).2.regular? path).getD []) ∧
      ∃ bodies ending made,
        Frame.Reader.HandsOut { source, token := .clear } bodies ending ∧
        made <+: (treatments { workspace := {} } opened.log opened.disk bodies).flatMap
          Message.Outcome.calls ++ [.shutdown] ∧
        run.value.2 = opened.useAll made ∧ Chronicle opened mishap.breakdown made := by
  intro source mishap opened run
  have harmless : ∀ document, Reads loggedDisk document { workspace := {} } {} { source, token := .clear } →
      Harmless loggedDisk opened document ∧
        Harmless loggedDisk (.opened {} loggedDisk none {}) document := by
    intro document reads
    have fits : Frame.Fits (Message.bodyAbout "file:///a.cs") := by decide +kernel
    have asks : Message.document? (Message.bodyAbout "file:///a.cs") = some (Bytes.ascii "/a.cs") := by
      decide +kernel
    obtain rfl := Option.some.inj (asks.symm.trans (reads.of_single fits))
    have log : opened.log.path = some (Bytes.ascii "x.log") := by cbv
    have logSpot : opened.disk.spot? (Bytes.ascii "x.log") = some ([], Bytes.ascii "x.log") := by cbv
    have documentSpot : opened.disk.spot? (Bytes.ascii "/a.cs") = some ([], Bytes.ascii "a.cs") := by cbv
    have read : loggedDisk.read (Bytes.ascii "/a.cs") = .ok (Bytes.ascii "1\n22\n333") := by cbv
    have without : (Outlet.opened {} loggedDisk none {}).log.path = none := rfl
    refine ⟨⟨?_, fun _ _ => ⟨_, read⟩⟩, ⟨?_, fun _ _ => ⟨_, read⟩⟩⟩
    · intro path enabled spot led led'
      obtain rfl := Option.some.inj (log.symm.trans enabled)
      exact absurd (logSpot.symm.trans (led.trans (led'.symm.trans documentSpot))) (by decide)
    · intro path enabled
      exact absurd (without.symm.trans enabled) (by simp)
  exact ⟨harmless, relay_independent_of_log {} loggedDisk {} .clear source _ none mishap {} harmless⟩

/-- A document behind a link that leads through a missing folder and out of it. -/
def linkedDisk : Disk :=
  { root := .leaf (Bytes.ascii "a.cs") (.file (Bytes.ascii "1\n22\n333") false)
      (.leaf (Bytes.ascii "doc.cs") (.link (Bytes.ascii "logs/../a.cs")) .empty) }

/-- The folder of a log that is opened is made, and the document behind it can be read. So its request is
widened, though the log is not written to where the document is, and it is not widened without a log. -/
theorem revealed_document_widened :
    let source := single (Message.bodyAbout "file:///doc.cs")
    let opened := Outlet.opened {} linkedDisk (some (Bytes.ascii "logs/x.log")) {}
    (∀ document, Reads linkedDisk document { workspace := {} } {} { source, token := .clear } →
        ∀ path, opened.log.path = some path → opened.disk.Beside path document) ∧
      outward (forward {} opened .clear source) ≠
        outward (forward {} (.opened {} linkedDisk none {}) .clear source) := by
  intro source opened
  have fits : Frame.Fits (Message.bodyAbout "file:///doc.cs") := by decide +kernel
  have asks : Message.document? (Message.bodyAbout "file:///doc.cs") = some (Bytes.ascii "/doc.cs") := by
    decide +kernel
  have log : opened.log.path = some (Bytes.ascii "logs/x.log") := by cbv
  have logSpot : opened.disk.spot? (Bytes.ascii "logs/x.log") =
      some ([Bytes.ascii "logs"], Bytes.ascii "x.log") := by cbv
  have documentSpot : opened.disk.spot? (Bytes.ascii "/doc.cs") = some ([], Bytes.ascii "a.cs") := by cbv
  constructor
  · intro document reads path enabled spot led led'
    obtain rfl := Option.some.inj (asks.symm.trans (reads.of_single fits))
    obtain rfl := Option.some.inj (log.symm.trans enabled)
    exact absurd (logSpot.symm.trans (led.trans (led'.symm.trans documentSpot))) (by decide)
  · intro same
    have obliging : ({} : Sink).Obliging := ⟨by decide, by decide, rfl, rfl⟩
    have diagnostic : Message.intercepted? (Message.bodyAbout "file:///doc.cs") = some .diagnostic := by
      decide +kernel
    have located : Message.documentPath "file:///doc.cs" = .ok (Bytes.ascii "/doc.cs") := by cbv
    have read : opened.disk.read (Bytes.ascii "/doc.cs") = .ok (Bytes.ascii "1\n22\n333") := by cbv
    have unread : linkedDisk.read (Bytes.ascii "/doc.cs") = .error (.system ErrorNumber.noEntry) := by cbv
    have expanded := Message.expand_eq_ok_iff.mpr
      ⟨_, _, _, Message.parse_bodyAbout "file:///doc.cs", located, read, rfl⟩
    obtain ⟨request, goes⟩ := Message.forwarded_document asks
    have plain : Message.forwarded linkedDisk (Message.bodyAbout "file:///doc.cs") =
        Message.bodyAbout "file:///doc.cs" := by
      rw [goes, unread]
    have sent (path? : Option Path) :
        (outward (forward {} (.opened {} linkedDisk path? {}) .clear source)).2.accepted =
          Message.Outcome.wire (Message.Interceptor.process (Outlet.opened {} linkedDisk path? {}).disk
            { workspace := {} } (Message.bodyAbout "file:///doc.cs")).value.1 :=
      accepted_single fits {} obliging
    have wires := (sent _).symm.trans ((congrArg (fun seen => seen.2.accepted) same).trans (sent none))
    rw [Message.Interceptor.process_value, Message.Interceptor.process_value] at wires
    change Message.Outcome.wire { forward := Message.forwarded opened.disk _, inject := _ } =
      Message.Outcome.wire { forward := Message.forwarded linkedDisk _, inject := _ } at wires
    rw [plain, Message.forwarded, diagnostic, expanded] at wires
    revert wires
    decide +kernel

end Relay

end LspProxy
