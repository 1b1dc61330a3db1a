import LspProxy.Proofs.Message.Carrying
import LspProxy.Proofs.Message.Orders

/-!
# Values there and back

A value that is both read and written comes back from its written form as it is, if it fits: if its integers
have 64 bits and its coordinates lie below their bound (`Survives`). Whatever is read fits, since the fields of
a record keep what holds of their values. So a text that is read at all is settled by being written once: read
and written again, it stays what it is.

Nothing turns into something else on the way. A string is read as a text, whatever its characters look like,
and a text is written as a string. An option that is absent leaves no member behind, so there is nothing that
it could be read from.
-/
namespace LspProxy.Message

open Json (Passes EachPasses Blanks Derives IsText ReadsBack bind_eq_ok_iff)

/-! ## What is read fits -/

section Halves

variable {α : Type} {Q : α → Prop} {firstKey secondKey : String}
  {read : Nat → Bytes → Except Json.Fault (α × Bytes)}

/-- What has been read of a record of two parts is of this kind. -/
structure Halves.Hold (Q : α → Prop) (state : Halves α) : Prop where
  first : ∀ value, state.first = some value → Q value
  second : ∀ value, state.second = some value → Q value

/-- What holds of all values that a reader finds holds of both parts of a record of two. -/
theorem halves_hold
    (passes : ∀ {depth : Nat} {input rest : Bytes} {value : α},
      read depth input = .ok (value, rest) → Passes input rest)
    (holds : ∀ {depth : Nat} {input rest : Bytes} {value : α}, read depth input = .ok (value, rest) → Q value)
    {depth : Nat} {input rest : Bytes} {found : α × α}
    (halves : readHalves firstKey secondKey read depth input = .ok (found, rest)) :
    Q found.1 ∧ Q found.2 := by
  obtain ⟨⟨state, behind⟩, record, complete⟩ :
      ∃ result, Json.readRecord (halvesFields firstKey secondKey read) {} depth input = .ok result ∧ _ :=
    bind_eq_ok_iff.mp halves
  have start : Halves.Hold Q {} := ⟨fun _ found => absurd found (by simp), fun _ found => absurd found (by simp)⟩
  have kept : state.Hold Q := by
    refine Json.readRecord_keeps (eachPasses_halves passes) ?_ start record
    intro field member state next depth input rest kept taken
    rcases List.mem_pair.mp member with rfl | rfl
    all_goals
      obtain ⟨⟨value, behind⟩, part, made⟩ := bind_eq_ok_iff.mp taken
      obtain ⟨rfl, rfl⟩ := Prod.mk.inj (Except.ok.inj made)
    · exact ⟨fun _ same => Option.some.inj same ▸ holds part, kept.second⟩
    · exact ⟨kept.first, fun _ same => Option.some.inj same ▸ holds part⟩
  dsimp only at complete
  split at complete
  · rename_i first second firstRead secondRead
    obtain ⟨rfl, rfl⟩ := Prod.mk.inj (Except.ok.inj complete)
    exact ⟨kept.first first firstRead, kept.second second secondRead⟩
  · exact absurd complete (by simp)

end Halves

variable {depth : Nat} {input rest : Bytes}

theorem Identifier.writable_of_read {id : Identifier} (read : Identifier.read depth input = .ok (id, rest)) :
    id.Writable :=
  (Identifier.read_eq_ok_iff.mp read).writable

theorem Position.bounded_of_read {position : Position} (read : Position.read depth input = .ok (position, rest)) :
    position.Bounded := by
  obtain ⟨⟨parts, behind⟩, found, made⟩ := bind_eq_ok_iff.mp read
  obtain ⟨rfl, rfl⟩ := Prod.mk.inj (Except.ok.inj made)
  obtain ⟨line, character⟩ := halves_hold Json.passes_readNatural Json.readNatural_lt found
  exact ⟨line, character⟩

theorem Range.bounded_of_read {range : Range} (read : Range.read depth input = .ok (range, rest)) :
    range.Bounded := by
  obtain ⟨⟨parts, behind⟩, found, made⟩ := bind_eq_ok_iff.mp read
  obtain ⟨rfl, rfl⟩ := Prod.mk.inj (Except.ok.inj made)
  obtain ⟨start, stop⟩ := halves_hold Position.passes Position.bounded_of_read found
  exact ⟨start, stop⟩

/-- An optional value that is there has been read. -/
theorem readOptional_holds {α : Type} {Q : α → Prop} {reader : Bytes → Except Json.Fault (α × Bytes)}
    (holds : ∀ {input rest : Bytes} {value : α}, reader input = .ok (value, rest) → Q value) {found : Option α}
    (read : Json.readOptional reader input = .ok (found, rest)) : ∀ value, found = some value → Q value := by
  intro value same
  rcases Json.readOptional_eq_ok read with ⟨absent, _⟩ | ⟨inner, present, taken⟩
  · exact absurd (same.symm.trans absent) (by simp)
  · obtain rfl := Option.some.inj (same.symm.trans present)
    exact holds taken

/-- What has been read of parameters fits. -/
structure ParamsDraft.Fits (draft : ParamsDraft) : Prop where
  range : ∀ range, draft.range.join = some range → range.Bounded
  workDoneToken : ∀ token, draft.workDoneToken.join = some token → token.Writable
  partialResultToken : ∀ token, draft.partialResultToken.join = some token → token.Writable

theorem DiagnosticParams.writable_of_read {params : DiagnosticParams}
    (read : DiagnosticParams.read depth input = .ok (params, rest)) : params.Writable := by
  obtain ⟨⟨draft, behind⟩, record, complete⟩ := bind_eq_ok_iff.mp read
  have start : ParamsDraft.Fits {} := by
    constructor <;> exact fun _ found => absurd found (by simp)
  have fits : draft.Fits := by
    refine Json.readRecord_keeps paramsFields_tracks.passes ?_ start record
    intro field member state next depth input rest fits taken
    simp only [paramsFields, List.mem_cons, List.not_mem_nil, or_false] at member
    rcases member with rfl | rfl | rfl | rfl
    all_goals
      obtain ⟨⟨value, behind⟩, found, made⟩ := bind_eq_ok_iff.mp taken
      obtain ⟨rfl, rfl⟩ := Prod.mk.inj (Except.ok.inj made)
    · exact ⟨fits.range, fits.workDoneToken, fits.partialResultToken⟩
    · exact ⟨readOptional_holds Range.bounded_of_read found, fits.workDoneToken, fits.partialResultToken⟩
    · exact ⟨fits.range, readOptional_holds Identifier.writable_of_read found, fits.partialResultToken⟩
    · exact ⟨fits.range, fits.workDoneToken, readOptional_holds Identifier.writable_of_read found⟩
  dsimp only at complete
  split at complete
  · obtain ⟨rfl, rfl⟩ := Prod.mk.inj (Except.ok.inj complete)
    exact ⟨fits.range, fits.workDoneToken, fits.partialResultToken⟩
  · exact absurd complete (by simp)

/-- What has been read of a request fits. -/
structure RequestDraft.Fits (draft : RequestDraft) : Prop where
  id : ∀ id, draft.id = some id → id.Writable
  params : ∀ params, draft.params = some params → params.Writable

theorem DiagnosticRequest.writable_of_read {request : DiagnosticRequest}
    (read : DiagnosticRequest.read depth input = .ok (request, rest)) : request.Writable := by
  obtain ⟨⟨draft, behind⟩, record, complete⟩ := bind_eq_ok_iff.mp read
  have start : RequestDraft.Fits {} := by
    constructor <;> exact fun _ found => absurd found (by simp)
  have fits : draft.Fits := by
    refine Json.readRecord_keeps requestFields_tracks.passes ?_ start record
    intro field member state next depth input rest fits taken
    simp only [requestFields, List.mem_cons, List.not_mem_nil, or_false] at member
    rcases member with rfl | rfl | rfl | rfl
    all_goals
      obtain ⟨⟨value, behind⟩, found, made⟩ := bind_eq_ok_iff.mp taken
      obtain ⟨rfl, rfl⟩ := Prod.mk.inj (Except.ok.inj made)
    · exact ⟨fits.id, fits.params⟩
    · exact ⟨fun _ same => Option.some.inj same ▸ Identifier.writable_of_read found, fits.params⟩
    · exact ⟨fits.id, fits.params⟩
    · exact ⟨fits.id, fun _ same => Option.some.inj same ▸ DiagnosticParams.writable_of_read found⟩
  dsimp only at complete
  split at complete
  · rename_i id method params idRead methodRead paramsRead
    obtain ⟨rfl, rfl⟩ := Prod.mk.inj (Except.ok.inj complete)
    exact ⟨fits.id id idRead, fits.params params paramsRead⟩
  · exact absurd complete (by simp)

/-! ## There and back -/

section Texts

variable {α : Type} {read : Nat → Bytes → Except Json.Fault (α × Bytes)} {print : α → List Char}
  {Valid : α → Prop}

/-- A whole text is a value with nothing but blanks behind it. -/
theorem parse_eq_ok_iff {text : Bytes} {value : α} :
    parse read text = .ok value ↔ ∃ rest, read Json.depthLimit text = .ok (value, rest) ∧ Blanks rest := by
  constructor
  · intro parsed
    obtain ⟨⟨found, rest⟩, taken, finished⟩ := bind_eq_ok_iff.mp parsed
    obtain ⟨rfl, blanks⟩ := finish_eq_ok_iff.mp finished
    exact ⟨rest, taken, blanks⟩
  · rintro ⟨rest, taken, blanks⟩
    exact bind_eq_ok_iff.mpr ⟨_, taken, finish_eq_ok_iff.mpr ⟨rfl, blanks⟩⟩

/-- A text, read and written again. -/
def renew (read : Nat → Bytes → Except Json.Fault (α × Bytes)) (print : α → List Char) (text : Bytes) :
    Except Json.Fault Bytes :=
  (parse read text).map fun value => Text.Utf8.encode (print value)

/-- The values that fit come back from their written form, and what is read fits. So what has been read and
written once stays as it is. -/
structure Survives (read : Nat → Bytes → Except Json.Fault (α × Bytes)) (print : α → List Char)
    (Valid : α → Prop) : Prop where
  back : ∀ value, Valid value → parse read (Text.Utf8.encode (print value)) = .ok value
  fits : ∀ text value, parse read text = .ok value → Valid value
  settles : ∀ text written, renew read print text = .ok written → renew read print written = .ok written

/-- It is enough that values that fit are read back wherever they stand, and that what is read there fits. -/
theorem survives_of_readsBack
    (back : ∀ {value : α}, Valid value → ReadsBack (read Json.depthLimit) (print value) value)
    (fits : ∀ {depth : Nat} {input rest : Bytes} {value : α}, read depth input = .ok (value, rest) → Valid value) :
    Survives read print Valid := by
  have returns {value : α} (valid : Valid value) : parse read (Text.Utf8.encode (print value)) = .ok value :=
    parse_of_readsBack (back valid)
  have valid {text : Bytes} {value : α} (parsed : parse read text = .ok value) : Valid value := by
    obtain ⟨rest, taken, _⟩ := parse_eq_ok_iff.mp parsed
    exact fits taken
  refine ⟨fun value => returns, fun text value => valid, fun text written renewed => ?_⟩
  unfold renew at renewed ⊢
  cases parsed : parse read text with
  | error fault =>
    rw [parsed] at renewed
    exact absurd renewed nofun
  | ok value =>
    rw [parsed] at renewed
    obtain rfl := Except.ok.inj renewed
    rw [returns (valid parsed)]
    rfl

/-- What is written of a value that is read back is a value of the grammar. -/
theorem derives_of_readsBack {text : List Char} {value : α} (back : ReadsBack (read depth) text value)
    (passes : ∀ {depth : Nat} {input rest : Bytes} {value : α},
      read depth input = .ok (value, rest) → Passes input rest)
    (begins : ∃ b others, Text.Utf8.encode text = b :: others ∧ Json.isSpace b = false) :
    Derives .value (Text.Utf8.encode text) := by
  obtain ⟨b, others, written, solid⟩ := begins
  have found := back [] Json.endsNumber_nil
  rw [List.append_nil] at found
  have passed := (passes found).skipValue
  rw [written] at passed ⊢
  exact Json.derives_of_skipValue solid passed

end Texts

/-! ## Strings stay strings -/

/-- What is read as a text is a string of this text, however it is spelled, with blanks around it. -/
theorem parse_text_iff {body : Bytes} {text : String} :
    parse Identifier.read body = .ok (.text text) ↔
      ∃ front value behind, Blanks front ∧ IsText text value ∧ Blanks behind ∧
        body = front ++ (value ++ behind) := by
  rw [parse_eq_ok_iff]
  constructor
  · rintro ⟨behind, taken, isBehind⟩
    have found : Json.readText body = .ok (text, behind) := Identifier.read_eq_ok_iff.mp taken
    unfold Json.readText at found
    split at found
    · rename_i string opened
      obtain ⟨front, isFront, whole⟩ := Json.blanks_of_skipSpace opened
      obtain ⟨quoted, spells, rfl⟩ := Json.readString_spells_iff.mp found
      exact ⟨front, _, behind, isFront, ⟨quoted, spells, rfl⟩, isBehind, by rw [whole]; simp⟩
    · exact absurd found (by simp)
  · rintro ⟨front, _, behind, isFront, ⟨quoted, spells, rfl⟩, isBehind, rfl⟩
    refine ⟨behind, Identifier.read_eq_ok_iff.mpr ?_, isBehind⟩
    change Json.readText _ = _
    unfold Json.readText
    rw [List.cons_append, List.append_assoc, List.singleton_append, isFront.before (by decide)]
    exact spells.read behind

/-! ## What is absent stays absent -/

/-- The key of a member that is written only if it is there. -/
def presentKey {α : Type} (key : String) (value : Option α) : List String :=
  if value.isSome then [key] else []

theorem keys_optionalMember {α : Type} (key : String) (print : α → List Char) (value : Option α) :
    (optionalMember key print value).map Prod.fst = presentKey key value := by
  cases value <;> rfl

theorem derives_optionalMember {α : Type} {key : String} {print : α → List Char} {value : Option α}
    (derives : ∀ found, value = some found → Derives .value (Text.Utf8.encode (print found))) :
    ∀ member ∈ optionalMember key print value, Derives .value (Text.Utf8.encode member.2) := by
  intro member among
  cases value with
  | none => exact absurd among List.not_mem_nil
  | some found =>
    obtain rfl := List.mem_singleton.mp among
    exact derives found rfl

theorem Identifier.derives_print {id : Identifier} (writable : id.Writable) :
    Derives .value (Text.Utf8.encode id.print) := by
  obtain ⟨b, others, begins, solid, _⟩ := id.encode_print_eq_cons
  exact derives_of_readsBack (Identifier.readsBack_print writable Json.depthLimit) Identifier.passes
    ⟨b, others, begins, solid⟩

theorem Range.derives_print {range : Range} (bounded : range.Bounded) :
    Derives .value (Text.Utf8.encode range.print) :=
  derives_of_readsBack (Range.readsBack_print bounded (by decide : 2 < Json.depthLimit)) Range.passes
    ⟨_, _, Json.encode_printObject _, by decide⟩

theorem TextDocument.derives_print (document : TextDocument) :
    Derives .value (Text.Utf8.encode document.print) :=
  Json.derives_printObject (List.forall_mem_singleton.mpr (derives_quote document.uri))

/-- Each member that is written of parameters is a value. -/
theorem derives_paramsMembers {params : DiagnosticParams} (writable : params.Writable) :
    ∀ member ∈ ("textDocument", params.textDocument.print) ::
        (optionalMember "range" Range.print params.range ++
          (optionalMember "workDoneToken" Identifier.print params.workDoneToken ++
            optionalMember "partialResultToken" Identifier.print params.partialResultToken)),
      Derives .value (Text.Utf8.encode member.2) := by
  intro member among
  rcases List.mem_cons.mp among with rfl | among
  · exact params.textDocument.derives_print
  rcases List.mem_append.mp among with range | among
  · exact derives_optionalMember (fun _ present => Range.derives_print (writable.range _ present)) member range
  rcases List.mem_append.mp among with workDone | partialResult
  · exact derives_optionalMember
      (fun _ present => Identifier.derives_print (writable.workDoneToken _ present)) member workDone
  · exact derives_optionalMember
      (fun _ present => Identifier.derives_print (writable.partialResultToken _ present)) member partialResult

/-- Parameters are written as an object of the document and of those options that are there. -/
theorem lists_params {params : DiagnosticParams} (writable : params.Writable) :
    ∃ members, Lists members (Text.Utf8.encode params.print) ∧
      members.map Prod.fst = "textDocument" :: (presentKey "range" params.range ++
        (presentKey "workDoneToken" params.workDoneToken ++
          presentKey "partialResultToken" params.partialResultToken)) := by
  refine ⟨_, lists_printObject (derives_paramsMembers writable), ?_⟩
  have keys (members : List (String × List Char)) :
      (members.map Json.octets).map Prod.fst = members.map Prod.fst := by
    rw [List.map_map]
    rfl
  rw [keys, List.map_cons, List.map_append, List.map_append, keys_optionalMember, keys_optionalMember,
    keys_optionalMember]

/-- A request is written with all of its members, the last of them its parameters. -/
theorem lists_request {request : DiagnosticRequest} (writable : request.Writable) :
    Lists [("jsonrpc", Text.Utf8.encode (Json.quote request.version)), ("id", Text.Utf8.encode request.id.print),
        ("method", Text.Utf8.encode (Json.quote request.method)),
        ("params", Text.Utf8.encode request.params.print)] (Text.Utf8.encode request.print) := by
  have values : ∀ member ∈ [("jsonrpc", Json.quote request.version), ("id", request.id.print),
      ("method", Json.quote request.method), ("params", request.params.print)],
        Derives .value (Text.Utf8.encode member.2) := by
    simp only [List.mem_cons, List.not_mem_nil, or_false, forall_eq_or_imp, forall_eq]
    exact ⟨derives_quote _, Identifier.derives_print writable.id, derives_quote _,
      Json.derives_printObject (derives_paramsMembers writable.params)⟩
  exact lists_printObject values

/-! ## All types -/

/-- Every type of value that is both read and written survives being written: identifiers of 64 bits or of any
text, positions below the bound and ranges of them, documents, and parameters and requests made of them, with
whichever options. Whatever text is read as one of them is settled by being written once. What is read as a
text is a string of that text and nothing else, so a string that looks like a number stays a string; and the
parameters are written with the keys of their document and of the options that are there, and with no
others, which also stand so in a request. -/
theorem written_values_survive :
    Survives Identifier.read Identifier.print Identifier.Writable ∧
    Survives Position.read Position.print Position.Bounded ∧
    Survives Range.read Range.print Range.Bounded ∧
    Survives TextDocument.read TextDocument.print (fun _ => True) ∧
    Survives DiagnosticParams.read DiagnosticParams.print DiagnosticParams.Writable ∧
    Survives DiagnosticRequest.read DiagnosticRequest.print DiagnosticRequest.Writable ∧
    (∀ (body : Bytes) (text : String), parse Identifier.read body = .ok (.text text) ↔
      ∃ front value behind, Blanks front ∧ IsText text value ∧ Blanks behind ∧
        body = front ++ (value ++ behind)) ∧
    (∀ params : DiagnosticParams, params.Writable →
      ∃ members, Lists members (Text.Utf8.encode params.print) ∧
        members.map Prod.fst = "textDocument" :: (presentKey "range" params.range ++
          (presentKey "workDoneToken" params.workDoneToken ++
            presentKey "partialResultToken" params.partialResultToken))) ∧
    ∀ request : DiagnosticRequest, request.Writable →
      Lists [("jsonrpc", Text.Utf8.encode (Json.quote request.version)),
          ("id", Text.Utf8.encode request.id.print), ("method", Text.Utf8.encode (Json.quote request.method)),
          ("params", Text.Utf8.encode request.params.print)] (Text.Utf8.encode request.print) := by
  refine ⟨?_, ?_, ?_, ?_, ?_, ?_, fun body text => parse_text_iff, fun params => lists_params,
    fun request => lists_request⟩
  · exact survives_of_readsBack (fun writable => Identifier.readsBack_print writable _)
      Identifier.writable_of_read
  · exact survives_of_readsBack (fun bounded => Position.readsBack_print bounded (by decide))
      Position.bounded_of_read
  · exact survives_of_readsBack (fun bounded => Range.readsBack_print bounded (by decide))
      Range.bounded_of_read
  · exact survives_of_readsBack (fun {document} _ => document.readsBack_print (by decide)) fun _ => trivial
  · exact survives_of_readsBack (fun writable => DiagnosticParams.readsBack_print writable (by decide))
      DiagnosticParams.writable_of_read
  · exact survives_of_readsBack (fun writable => DiagnosticRequest.readsBack_print writable (by decide))
      DiagnosticRequest.writable_of_read

/-- A request whose identifier is a text that looks like a number, with the least integer as a token and
without a range. -/
def deceptiveRequest : DiagnosticRequest :=
  ⟨usualVersion, .text "-7", "é\"\\\x01",
    { textDocument := ⟨"file:///a"⟩, workDoneToken := some (.number (-0x8000000000000000)) }⟩

/-- It comes back as it is, and what is written of it mentions no range. -/
theorem deceptive_request_survives :
    deceptiveRequest.Writable ∧
      parse DiagnosticRequest.read (Text.Utf8.encode deceptiveRequest.print) = .ok deceptiveRequest ∧
      ∃ members, Lists members (Text.Utf8.encode deceptiveRequest.params.print) ∧
        members.map Prod.fst = ["textDocument", "workDoneToken"] := by
  obtain ⟨_, _, _, _, _, requests, _, keys, _⟩ := written_values_survive
  have params : deceptiveRequest.params.Writable := by
    refine ⟨nofun, fun token present => ?_, nofun⟩
    obtain rfl := Option.some.inj present
    exact Identifier.inRange_iff.mpr (by decide)
  have writable : deceptiveRequest.Writable := ⟨trivial, params⟩
  exact ⟨writable, requests.back deceptiveRequest writable, keys deceptiveRequest.params params⟩

end LspProxy.Message
