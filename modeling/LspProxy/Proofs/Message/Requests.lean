import LspProxy.Message.DiagnosticRequest
import LspProxy.Proofs.Message.Identifiers

/-!
# Requests read back

A written diagnostic request is read back as it is, if its identifiers are integers of 64 bits or texts
and the coordinates of its range lie below the bound (`DiagnosticRequest.parse_print`). What is written of
each type is read back wherever it stands and whatever stands behind it, provided that as many brackets
may be opened as the type nests.
-/
namespace LspProxy.Message

open Json (ReadsBack Fills readRecord_printObject)

/-- What is read back wherever it stands is read back as a whole text. -/
theorem parse_of_readsBack {α : Type} {read : Nat → Bytes → Except Json.Fault (α × Bytes)} {text : List Char}
    {value : α} (back : ReadsBack (read Json.depthLimit) text value) :
    parse read (Text.Utf8.encode text) = .ok value := by
  have found := back [] Json.endsNumber_nil
  rw [List.append_nil] at found
  unfold parse
  rw [found]
  rfl

/-! ## Records of two parts -/

/-- The fields of a record of two parts. -/
def halvesFields {α : Type} (firstKey secondKey : String)
    (read : Nat → Bytes → Except Json.Fault (α × Bytes)) : List (Json.Field (Halves α)) :=
  [⟨firstKey, true, fun state => state.first.isSome, fun state depth input => do
      let (value, rest) ← read depth input
      return ({ state with first := some value }, rest)⟩,
   ⟨secondKey, true, fun state => state.second.isSome, fun state depth input => do
      let (value, rest) ← read depth input
      return ({ state with second := some value }, rest)⟩]

/-- A record of two parts is complete with both. -/
theorem readHalves_of_readRecord {α : Type} {firstKey secondKey : String}
    {read : Nat → Bytes → Except Json.Fault (α × Bytes)} {depth : Nat} {input rest : Bytes}
    {first second : α}
    (record : Json.readRecord (halvesFields firstKey secondKey read) {} depth input =
      .ok (⟨some first, some second⟩, rest)) :
    readHalves firstKey secondKey read depth input = .ok ((first, second), rest) := by
  change (Json.readRecord (halvesFields firstKey secondKey read) {} depth input >>= _) = _
  rw [record]
  rfl

/-- Two parts that are read back make a record that is read back. -/
theorem readsBack_halves {α : Type} {firstKey secondKey : String} (different : firstKey ≠ secondKey)
    {read : Nat → Bytes → Except Json.Fault (α × Bytes)} {print : α → List Char} {first second : α}
    {depth : Nat} (nested : 1 < depth) (firstBack : ReadsBack (read (depth - 1)) (print first) first)
    (secondBack : ReadsBack (read (depth - 1)) (print second) second) :
    ReadsBack (readHalves firstKey secondKey read depth)
      (Json.printObject [(firstKey, print first), (secondKey, print second)]) (first, second) := by
  intro rest ends
  apply readHalves_of_readRecord
  have fills : Fills (halvesFields firstKey secondKey read) (depth - 1) {}
      [(firstKey, print first), (secondKey, print second)] ⟨some first, some second⟩ := by
    apply Fills.member (by simp [halvesFields]; rfl) rfl
    · exact firstBack.map fun value => (⟨some value, none⟩ : Halves α)
    apply Fills.member (by simp [halvesFields, different]; rfl) rfl
    · exact secondBack.map fun value => (⟨some first, some value⟩ : Halves α)
    exact Fills.done _
  exact readRecord_printObject nested fills (by simp [halvesFields]) rest ends

/-! ## Ranges -/

/-- The coordinates of a position that can be written and read back. -/
structure Position.Bounded (position : Position) : Prop where
  line : position.line < coordinateBound
  character : position.character < coordinateBound

theorem Position.readsBack_print {position : Position} (bounded : position.Bounded) {depth : Nat}
    (nested : 1 < depth) : ReadsBack (Position.read depth) position.print position := by
  have coordinate {n : Nat} (below : n < coordinateBound) :
      ReadsBack (Json.readNatural coordinateBound) (Json.printNatural n) n := by
    intro rest ends
    have word : n ≤ Json.maxSignificand := Nat.le_trans (Nat.le_of_lt below) (by decide)
    exact Json.readNatural_numeral below word ends
  have halves : ReadsBack
      (readHalves "line" "character" (fun _ => Json.readNatural coordinateBound) depth)
      position.print (position.line, position.character) := by
    apply readsBack_halves (by decide) nested
    · exact coordinate bounded.line
    · exact coordinate bounded.character
  exact halves.map fun parts => (⟨parts.1, parts.2⟩ : Position)

/-- A range between positions that can be read back. -/
structure Range.Bounded (range : Range) : Prop where
  start : range.start.Bounded
  stop : range.stop.Bounded

theorem Range.readsBack_print {range : Range} (bounded : range.Bounded) {depth : Nat}
    (nested : 2 < depth) : ReadsBack (Range.read depth) range.print range := by
  have inner : 1 < depth - 1 := by omega
  have halves : ReadsBack (readHalves "start" "end" Position.read depth)
      range.print (range.start, range.stop) := by
    apply readsBack_halves (by decide) (Nat.lt_of_succ_lt nested)
    · exact Position.readsBack_print bounded.start inner
    · exact Position.readsBack_print bounded.stop inner
  exact halves.map fun parts => (⟨parts.1, parts.2⟩ : Range)

/-! ## Documents -/

/-- The field of a document. -/
def uriField : Json.Field (Option String) :=
  ⟨"uri", true, Option.isSome, fun _ _ input => do
    let (uri, rest) ← Json.readText input
    return (some uri, rest)⟩

theorem TextDocument.readsBack_print (document : TextDocument) {depth : Nat} (nested : 1 < depth) :
    ReadsBack (TextDocument.read depth) document.print document := by
  intro rest ends
  have fills : Fills [uriField] (depth - 1) none [("uri", Json.quote document.uri)]
      (some document.uri) := by
    apply Fills.member rfl rfl
    · exact (Json.readsBack_quote document.uri).map some
    exact Fills.done _
  have record := readRecord_printObject nested fills (by simp [uriField]) rest ends
  change (Json.readRecord [uriField] none depth _ >>= _) = _
  unfold TextDocument.print
  rw [record]
  rfl

/-! ## Parameters -/

/-- A member that may be missing is read back if it is so where it is there. -/
theorem fills_optionalMember {σ α : Type} {fields : List (Json.Field σ)} {depth : Nat} {state next : σ}
    {key : String} {print : α → List Char} {value : Option α} {field : Json.Field σ}
    (known : fields.find? (fun field => field.key = key) = some field)
    (unseen : field.seen state = false) (absent : value = none → next = state)
    (present : ∀ found, value = some found → ReadsBack (field.read state depth) (print found) next)
    {last : σ} {members : List (String × List Char)} (later : Fills fields depth next members last) :
    Fills fields depth state (optionalMember key print value ++ members) last := by
  cases value with
  | none =>
    rw [absent rfl] at later
    exact later
  | some found => exact .member known unseen (present found rfl) later

/-- Parameters that can be written and read back. -/
structure DiagnosticParams.Writable (params : DiagnosticParams) : Prop where
  range : ∀ range, params.range = some range → range.Bounded
  workDoneToken : ∀ token, params.workDoneToken = some token → token.Writable
  partialResultToken : ∀ token, params.partialResultToken = some token → token.Writable

theorem DiagnosticParams.readsBack_print {params : DiagnosticParams} (writable : params.Writable)
    {depth : Nat} (nested : 3 < depth) :
    ReadsBack (DiagnosticParams.read depth) params.print params := by
  obtain ⟨textDocument, range, workDoneToken, partialResultToken⟩ := params
  obtain ⟨bounded, workDone, partialResult⟩ := writable
  have token {id : Identifier} (writable : id.Writable) :
      ReadsBack (Json.readOptional (Identifier.read (depth - 1))) id.print (some id) := by
    obtain ⟨b, others, begins, solid, other⟩ := id.encode_print_eq_cons
    exact (Identifier.readsBack_print writable _).optional begins solid other
  have partialResultFills : Fills paramsFields (depth - 1)
      ⟨some textDocument, range.map some, workDoneToken.map some, none⟩
      (optionalMember "partialResultToken" Identifier.print partialResultToken ++ [])
      ⟨some textDocument, range.map some, workDoneToken.map some, partialResultToken.map some⟩ := by
    apply fills_optionalMember rfl rfl _ _ (Fills.done _)
    · rintro rfl
      rfl
    · rintro found rfl
      exact (token (partialResult found rfl)).map fun value => ({
        textDocument := some textDocument, range := range.map some,
        workDoneToken := workDoneToken.map some, partialResultToken := some value } : ParamsDraft)
  have workDoneFills : Fills paramsFields (depth - 1) ⟨some textDocument, range.map some, none, none⟩
      (optionalMember "workDoneToken" Identifier.print workDoneToken ++
        (optionalMember "partialResultToken" Identifier.print partialResultToken ++ []))
      ⟨some textDocument, range.map some, workDoneToken.map some, partialResultToken.map some⟩ := by
    apply fills_optionalMember rfl rfl _ _ partialResultFills
    · rintro rfl
      rfl
    · rintro found rfl
      exact (token (workDone found rfl)).map fun value => ({
        textDocument := some textDocument, range := range.map some,
        workDoneToken := some value } : ParamsDraft)
  have rangeFills : Fills paramsFields (depth - 1) ⟨some textDocument, none, none, none⟩
      (optionalMember "range" Range.print range ++
        (optionalMember "workDoneToken" Identifier.print workDoneToken ++
          (optionalMember "partialResultToken" Identifier.print partialResultToken ++ [])))
      ⟨some textDocument, range.map some, workDoneToken.map some, partialResultToken.map some⟩ := by
    apply fills_optionalMember rfl rfl _ _ workDoneFills
    · rintro rfl
      rfl
    · rintro found rfl
      have back := Range.readsBack_print (bounded found rfl) (by omega : 2 < depth - 1)
      exact (back.optional rfl (by decide) (by decide)).map fun value => ({
        textDocument := some textDocument, range := some value } : ParamsDraft)
  have fills : Fills paramsFields (depth - 1) {}
      (("textDocument", textDocument.print) ::
        (optionalMember "range" Range.print range ++
          (optionalMember "workDoneToken" Identifier.print workDoneToken ++
            (optionalMember "partialResultToken" Identifier.print partialResultToken ++ []))))
      ⟨some textDocument, range.map some, workDoneToken.map some, partialResultToken.map some⟩ := by
    apply Fills.member rfl rfl _ rangeFills
    have back := textDocument.readsBack_print (by omega : 1 < depth - 1)
    exact back.map fun value => ({ textDocument := some value } : ParamsDraft)
  intro rest ends
  have record := readRecord_printObject (by omega) fills (by simp [paramsFields]) rest ends
  rw [List.append_nil] at record
  unfold DiagnosticParams.read DiagnosticParams.print
  rw [record]
  have join {α : Type} (value : Option α) : (value.map some).join = value := by
    cases value with
    | none => rfl
    | some value => rfl
  simp only [bind, Except.bind, pure, Except.pure, join]

/-! ## Requests -/

/-- A request that can be written and read back. -/
structure DiagnosticRequest.Writable (request : DiagnosticRequest) : Prop where
  id : request.id.Writable
  params : request.params.Writable

theorem DiagnosticRequest.readsBack_print {request : DiagnosticRequest} (writable : request.Writable)
    {depth : Nat} (nested : 4 < depth) :
    ReadsBack (DiagnosticRequest.read depth) request.print request := by
  obtain ⟨version, id, method, params⟩ := request
  obtain ⟨idWritable, paramsWritable⟩ := writable
  have fills : Fills requestFields (depth - 1) {}
      [("jsonrpc", Json.quote version), ("id", id.print), ("method", Json.quote method),
        ("params", params.print)]
      ⟨some version, some id, some method, some params⟩ := by
    apply Fills.member rfl rfl
    · exact (Json.readsBack_quote version).map fun value => ({ version := some value } : RequestDraft)
    apply Fills.member rfl rfl
    · exact (Identifier.readsBack_print idWritable (depth - 1)).map fun value =>
        ({ version := some version, id := some value } : RequestDraft)
    apply Fills.member rfl rfl
    · exact (Json.readsBack_quote method).map fun value =>
        ({ version := some version, id := some id, method := some value } : RequestDraft)
    apply Fills.member rfl rfl
    · have back := DiagnosticParams.readsBack_print paramsWritable (by omega : 3 < depth - 1)
      exact back.map fun value =>
        ({ version := some version, id := some id, method := some method,
           params := some value } : RequestDraft)
    exact Fills.done _
  intro rest ends
  have record := readRecord_printObject (by omega) fills (by simp [requestFields]) rest ends
  unfold DiagnosticRequest.read DiagnosticRequest.print
  rw [record]
  rfl

/-- A written request is read back as a whole text. -/
theorem DiagnosticRequest.parse_print {request : DiagnosticRequest} (writable : request.Writable) :
    parse DiagnosticRequest.read (Text.Utf8.encode request.print) = .ok request :=
  parse_of_readsBack (DiagnosticRequest.readsBack_print writable (by decide))

end LspProxy.Message
