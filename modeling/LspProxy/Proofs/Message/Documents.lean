import LspProxy.Proofs.Message.Bootstrap
import LspProxy.Proofs.Message.Widening
import LspProxy.Proofs.Uri.Schemes

/-!
# The documents of diagnostic requests

A diagnostic request is widened to the file that its document's URI leads to, and a URI leads to a file by its
path and by its host (`Uri.LeadsTo`): its scheme is not looked at. So a request is refused before any file is
read exactly if its URI cannot be read, has no path or names another machine, and the client's message is
forwarded as it came then; any other request has its file read and its range replaced, be its scheme `file`
or not (`documents_regardless_of_scheme`).

What this means for the text of a URI is said for plain paths, under all schemes at once: one right behind the
colon, or behind the name by which a machine calls itself, is the path of the file that is read, and one
behind another host is refused.
-/
namespace LspProxy.Message

/-- The request is refused because of its URI: there is none, or it is not the URI of a file here. -/
def ExpansionFault.RefusesUri (uri : String) : ExpansionFault → Prop
  | invalidUri text fault => text = uri ∧ Uri.parse uri.toList = .error fault
  | notAFile text => text = uri ∧ ∃ parsed, Uri.parse uri.toList = .ok parsed
  | unreadable _ | unreadableFile _ _ => False

/-- The file of a document is the one that its URI leads to. -/
theorem documentPath_eq_ok_iff {uri : String} {path : Path} :
    documentPath uri = .ok path ↔ Uri.LeadsTo uri.toList path := by
  rw [Uri.leadsTo_iff]
  unfold documentPath
  cases parsed : Uri.parse uri.toList with
  | error fault => simp
  | ok whole =>
    cases led : whole.toPath? with
    | none => simp [led]
    | some found => simp [led]

/-- A URI that leads nowhere is refused. -/
theorem documentPath_refuses {uri : String} (nowhere : ∀ path, ¬ Uri.LeadsTo uri.toList path) :
    ∃ fault : ExpansionFault, fault.RefusesUri uri ∧ documentPath uri = .error fault := by
  cases located : documentPath uri with
  | ok path => exact absurd (documentPath_eq_ok_iff.mp located) (nowhere path)
  | error fault =>
    refine ⟨fault, ?_, rfl⟩
    unfold documentPath at located
    split at located
    · rename_i invalid parsed
      obtain rfl := Except.error.inj located
      exact ⟨rfl, parsed⟩
    · rename_i uri' parsed
      split at located
      · exact absurd located (by simp)
      · obtain rfl := Except.error.inj located
        exact ⟨rfl, uri', parsed⟩

/-- What becomes of a request that is read. -/
theorem expand_request {body : Bytes} {request : DiagnosticRequest}
    (reads : parse DiagnosticRequest.read body = .ok request) (disk : Disk) :
    (expand disk body).value =
      match documentPath request.params.textDocument.uri with
      | .error fault => .error fault
      | .ok path =>
        match disk.read path with
        | .error failure => .error (.unreadableFile path failure)
        | .ok content => .ok (request.withRange (documentRange content)).print := by
  have value : (expand disk body).value = (widen disk body).map fun result => result.1.print := by
    unfold expand
    cases widen disk body <;> rfl
  rw [value]
  unfold widen
  rw [reads]
  cases located : documentPath request.params.textDocument.uri with
  | error fault => simp [Except.mapError, bind, Except.bind, Except.map, located]
  | ok path =>
    cases read : disk.read path with
    | error failure => simp [Except.mapError, bind, Except.bind, Except.map, located, read]
    | ok content =>
      simp only [Except.mapError, bind, Except.bind, located, read]
      rfl

/-- What goes to the server in the place of a message is what it is expanded to, or the message itself. -/
theorem Interceptor.process_forward (disk : Disk) (interceptor : Interceptor) (body : Bytes) :
    (interceptor.process disk body).value.1.forward = forwarded disk body := by
  rw [process_value]

/-- A message that cannot be expanded is forwarded as it came. -/
theorem forwarded_of_error {disk : Disk} {body : Bytes} {fault : ExpansionFault}
    (refused : (expand disk body).value = .error fault) : forwarded disk body = body := by
  unfold forwarded
  rw [refused]
  split
  · rename_i widened
    exact absurd widened nofun
  · rfl

/-- Whatever the files are, the request is refused because of its URI, and forwarded as it came. -/
def Refused (uri : String) (body : Bytes) : Prop :=
  ∃ fault : ExpansionFault, fault.RefusesUri uri ∧ ∀ disk, (expand disk body).value = .error fault ∧
    ∀ interceptor, (Interceptor.process disk interceptor body).value.1.forward = body

/-- The request is widened to the file at the path, and forwarded so if it is a diagnostic request by its
method. Where the file cannot be read it is forwarded as it came. -/
def WidenedTo (path : Path) (request : DiagnosticRequest) (body : Bytes) : Prop :=
  ∀ disk : Disk,
    match disk.read path with
    | .error failure => (expand disk body).value = .error (.unreadableFile path failure) ∧
        ∀ interceptor, (Interceptor.process disk interceptor body).value.1.forward = body
    | .ok content =>
      let widened := (request.withRange (documentRange content)).print
      (expand disk body).value = .ok widened ∧
        (intercepted? body = some .diagnostic → ∀ interceptor,
          (Interceptor.process disk interceptor body).value.1.forward = Text.Utf8.encode widened)

theorem refused_of_nowhere {body : Bytes} {request : DiagnosticRequest}
    (reads : parse DiagnosticRequest.read body = .ok request)
    (nowhere : ∀ path, ¬ Uri.LeadsTo request.params.textDocument.uri.toList path) :
    Refused request.params.textDocument.uri body := by
  obtain ⟨fault, refuses, located⟩ := documentPath_refuses nowhere
  refine ⟨fault, refuses, fun disk => ?_⟩
  have refused := expand_request reads disk
  rw [located] at refused
  refine ⟨refused, fun interceptor => ?_⟩
  rw [Interceptor.process_forward, forwarded_of_error refused]

theorem widenedTo_of_leadsTo {body : Bytes} {request : DiagnosticRequest} {path : Path}
    (reads : parse DiagnosticRequest.read body = .ok request)
    (leads : Uri.LeadsTo request.params.textDocument.uri.toList path) : WidenedTo path request body := by
  intro disk
  have expanded := expand_request reads disk
  rw [documentPath_eq_ok_iff.mpr leads] at expanded
  cases read : disk.read path with
  | error failure =>
    simp only [read] at expanded ⊢
    refine ⟨expanded, fun interceptor => ?_⟩
    rw [Interceptor.process_forward, forwarded_of_error expanded]
  | ok content =>
    simp only [read] at expanded ⊢
    refine ⟨expanded, fun diagnostic interceptor => ?_⟩
    rw [Interceptor.process_forward]
    unfold forwarded
    rw [diagnostic, expanded]

/-- Whether a request is refused because of its URI depends on where the URI leads, and not on its scheme or
on any file. Under every scheme a plain path behind this machine's name leads to itself, and one behind
another host leads nowhere. Right behind the colon it leads to itself as well, under all schemes but the few
that have a host there, and what does not start with a slash leads nowhere. -/
theorem documents_regardless_of_scheme {body : Bytes} {request : DiagnosticRequest} {uri : String}
    (reads : parse DiagnosticRequest.read body = .ok request)
    (about : request.params.textDocument.uri = uri) :
    ((∀ path, ¬ Uri.LeadsTo uri.toList path) → Refused uri body) ∧
    (∀ path, Uri.LeadsTo uri.toList path → WidenedTo path request body) ∧
    (∀ scheme names, Uri.IsScheme scheme → names ≠ [] → (∀ name ∈ names, Uri.IsPlainName name) →
      (Uri.Kind.ofScheme (scheme.map Char.toLower) ≠ .wellKnown →
        uri.toList = scheme ++ ':' :: Uri.pathText names →
        WidenedTo (Text.Utf8.encode (Uri.pathText names)) request body) ∧
      (uri.toList = scheme ++ ':' :: '/' :: '/' :: (Uri.localName ++ Uri.pathText names) →
        WidenedTo (Text.Utf8.encode (Uri.pathText names)) request body) ∧
      ∀ host, host ≠ [] → (∀ c ∈ host, Uri.isPlain c = true) → host.map Char.toLower ≠ Uri.localName →
        uri.toList = scheme ++ ':' :: '/' :: '/' :: (host ++ Uri.pathText names) → Refused uri body) ∧
    ∀ scheme rest, Uri.scheme? (Uri.clean uri.toList) = some (scheme, rest) →
      Uri.Kind.ofScheme scheme = .generic → rest.head? ≠ some '/' → Refused uri body := by
  subst about
  refine ⟨refused_of_nowhere reads, fun path => widenedTo_of_leadsTo reads, ?_, ?_⟩
  · intro scheme names isScheme given plains
    refine ⟨?_, ?_, ?_⟩
    · intro other text
      apply widenedTo_of_leadsTo reads
      rw [text]
      exact Uri.leadsTo_rooted isScheme other plains given
    · intro text
      apply widenedTo_of_leadsTo reads
      rw [text]
      exact Uri.leadsTo_localhost isScheme plains given
    · intro host named hosted elsewhere text
      apply refused_of_nowhere reads
      rw [text]
      exact Uri.not_leadsTo_elsewhere isScheme named hosted elsewhere plains given
  · intro scheme rest read generic bare
    exact refused_of_nowhere reads (Uri.not_leadsTo_opaque read generic bare)

/-- A diagnostic request about a document. -/
def requestAbout (uri : String) : DiagnosticRequest :=
  ⟨usualVersion, .number 1, "textDocument/diagnostic", { textDocument := ⟨uri⟩ }⟩

/-- The octets of this request. -/
def bodyAbout (uri : String) : Bytes := Text.Utf8.encode (requestAbout uri).print

/-- It is read back as the request. -/
theorem parse_bodyAbout (uri : String) :
    parse DiagnosticRequest.read (bodyAbout uri) = .ok (requestAbout uri) := by
  have writable : (requestAbout uri).Writable := by
    refine ⟨rfl, nofun, nofun, nofun⟩
  exact DiagnosticRequest.parse_print writable

/-- Requests about documents of four schemes: the first two are refused, the others are widened to the same
file. -/
theorem documents_of_four_schemes :
    Refused "untitled:Untitled-1" (bodyAbout "untitled:Untitled-1") ∧
      Refused "file://server/src/File.cs" (bodyAbout "file://server/src/File.cs") ∧
      WidenedTo (Bytes.ascii "/src/File.cs") (requestAbout "git:/src/File.cs")
        (bodyAbout "git:/src/File.cs") ∧
      WidenedTo (Bytes.ascii "/src/File.cs") (requestAbout "http://localhost/src/File.cs")
        (bodyAbout "http://localhost/src/File.cs") := by
  have names : ∀ name ∈ ["src".toList, "File.cs".toList], Uri.IsPlainName name := by decide
  have path : Text.Utf8.encode (Uri.pathText ["src".toList, "File.cs".toList]) =
      Bytes.ascii "/src/File.cs" := by
    decide +kernel
  rw [← path]
  refine ⟨?_, ?_, ?_, ?_⟩
  · obtain ⟨-, -, -, opaques⟩ := documents_regardless_of_scheme (parse_bodyAbout "untitled:Untitled-1") rfl
    exact opaques "untitled".toList "Untitled-1".toList (by decide) (by decide) (by decide)
  · obtain ⟨-, -, plain, -⟩ := documents_regardless_of_scheme (parse_bodyAbout "file://server/src/File.cs") rfl
    have hosted : ∀ c ∈ "server".toList, Uri.isPlain c = true := List.all_eq_true.mp (by decide)
    exact (plain "file".toList _ (by decide) (by decide) names).2.2 "server".toList (by decide) hosted
      (by decide) rfl
  · obtain ⟨-, -, plain, -⟩ := documents_regardless_of_scheme (parse_bodyAbout "git:/src/File.cs") rfl
    exact (plain "git".toList _ (by decide) (by decide) names).1 (by decide) rfl
  · obtain ⟨-, -, plain, -⟩ :=
      documents_regardless_of_scheme (parse_bodyAbout "http://localhost/src/File.cs") rfl
    exact (plain "http".toList _ (by decide) (by decide) names).2.1 rfl

/-- A request about a document of another scheme that is not refused: it is widened to a file that the scheme
does not stand for, and goes on changed. -/
theorem git_document_widened :
    (Uri.scheme? "git:/a".toList = some ("git".toList, "/a".toList)) ∧
      intercepted? (bodyAbout "git:/a") = some .diagnostic ∧
      (expand oneDocument (bodyAbout "git:/a")).value =
        .ok ((requestAbout "git:/a").withRange ⟨⟨0, 0⟩, ⟨2, 3⟩⟩).print ∧
      ∀ interceptor : Interceptor,
        (interceptor.process oneDocument (bodyAbout "git:/a")).value.1.forward ≠ bodyAbout "git:/a" := by
  have diagnostic : intercepted? (bodyAbout "git:/a") = some .diagnostic := by decide +kernel
  have located : documentPath "git:/a" = .ok (Bytes.ascii "/a") := by cbv
  have read : oneDocument.read (Bytes.ascii "/a") = .ok (Bytes.ascii "one\ntwo") := by cbv
  have measured : documentRange (Bytes.ascii "one\ntwo") = ⟨⟨0, 0⟩, ⟨2, 3⟩⟩ := by decide +kernel
  have expanded := expand_eq_ok_iff.mpr ⟨_, _, _, parse_bodyAbout "git:/a", located, read, rfl⟩
  rw [measured] at expanded
  refine ⟨by decide, diagnostic, expanded, fun interceptor => ?_⟩
  rw [Interceptor.process_forward]
  unfold forwarded
  rw [diagnostic, expanded]
  decide +kernel

end LspProxy.Message
