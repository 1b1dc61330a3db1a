import LspProxy.Message.Expansion
import LspProxy.Proofs.Message.Carrying

/-!
# The widened request

A widened request is the request that came, with the range of the whole document (`widening_changes_range`).
It is written with the members that are known and no others, so it is read back as it is; and since it
names the same document, widening it again changes nothing.

Identifiers and tokens are carried as they stand: between the numeral that came and the numeral that goes
there is no difference, and a value that no identifier stands for makes the widening fail.
-/
namespace LspProxy.Message

open Json (place?)

/-- The range of a whole document. -/
def documentRange (content : Bytes) : Range :=
  wholeRange (Text.lineMetrics (Text.Utf8.lossy content))

/-- Coordinates are cut off below the bound. -/
theorem documentRange_bounded (content : Bytes) : (documentRange content).Bounded := by
  have limit : Text.positionLimit < coordinateBound := by decide
  constructor
  · constructor <;> exact (by decide : 0 < coordinateBound)
  · constructor
    · exact Nat.lt_of_le_of_lt (Nat.min_le_right _ _) limit
    · exact Nat.lt_of_le_of_lt (Nat.min_le_right _ _) limit

/-- What a text is widened to, if it is. -/
theorem expand_eq_ok_iff {disk : Disk} {body : Bytes} {text : List Char} :
    (expand disk body).value = .ok text ↔
      ∃ request path content,
        parse DiagnosticRequest.read body = .ok request ∧
        documentPath request.params.textDocument.uri = .ok path ∧ disk.read path = .ok content ∧
        text = (request.withRange (documentRange content)).print := by
  have value : (expand disk body).value = (widen disk body).map fun result => result.1.print := by
    unfold expand
    cases widen disk body <;> rfl
  rw [value]
  unfold widen
  constructor
  · intro widened
    cases parsed : parse DiagnosticRequest.read body with
    | error fault =>
      rw [parsed] at widened
      exact absurd widened (by simp [Except.mapError, bind, Except.bind, Except.map])
    | ok request =>
      rw [parsed] at widened
      cases located : documentPath request.params.textDocument.uri with
      | error fault =>
        exact absurd widened (by simp [Except.mapError, bind, Except.bind, Except.map, located])
      | ok path =>
        cases read : disk.read path with
        | error failure =>
          exact absurd widened (by simp [Except.mapError, bind, Except.bind, Except.map, located, read])
        | ok content =>
          simp only [Except.mapError, bind, Except.bind, located, read] at widened
          exact ⟨request, path, content, rfl, located, read, (Except.ok.inj widened).symm⟩
  · rintro ⟨request, path, content, parsed, located, read, rfl⟩
    simp only [parsed, located, read, Except.mapError, bind, Except.bind]
    rfl

/-! ## Writing and reading back -/

/-- A token that stands in a text can be written. -/
theorem writable_of_tokenStands {place : Option Bytes} {token : Identifier}
    (stands : TokenStands place (some token)) : token.Writable := by
  cases place with
  | none => exact absurd stands (by simp [TokenStands])
  | some place =>
    obtain ⟨rest, stands⟩ := stands
    exact stands.writable

/-- A request that has been read can be written with any range that can be. -/
theorem Carries.writable {body : Bytes} {request : DiagnosticRequest} (carries : Carries body request)
    {range : Range} (bounded : range.Bounded) : (request.withRange range).Writable := by
  constructor
  · obtain ⟨place, _, rest, stands⟩ := carries.id
    exact stands.writable
  · constructor
    · intro whole ranged
      obtain rfl : range = whole := Option.some.inj ranged
      exact bounded
    · intro token (present : request.params.workDoneToken = some token)
      have stands := carries.workDoneToken
      rw [present] at stands
      exact writable_of_tokenStands stands
    · intro token (present : request.params.partialResultToken = some token)
      have stands := carries.partialResultToken
      rw [present] at stands
      exact writable_of_tokenStands stands

/-! ## What cannot be carried -/

/-- No identifier stands at this place: the value there is no string and no numeral of an integer of 64
bits. -/
def Uncarriable (place : Bytes) : Prop := ∀ id, ¬ IdentifierStands place id

/-- What cannot be carried is what is refused as an identifier. -/
theorem uncarriable_iff {place : Bytes} (depth : Nat) :
    Uncarriable place ↔ ∃ fault, Identifier.read depth place = .error fault := by
  constructor
  · intro uncarriable
    cases read : Identifier.read depth place with
    | error fault => exact ⟨fault, rfl⟩
    | ok result => exact absurd ⟨result.2, Identifier.read_eq_ok_iff.mp read⟩ (uncarriable result.1)
  · rintro ⟨fault, refused⟩ id ⟨rest, stands⟩
    have read : Identifier.read depth place = .ok (id, rest) := Identifier.read_eq_ok_iff.mpr stands
    exact absurd (refused.symm.trans read) (by simp)

/-- The value for the identifier or for a token of a request cannot be carried. A token may also be
missing or `null`. -/
def HoldsUncarriable (body : Bytes) : Prop :=
  (∃ place, place? requestFields "id" body = some place ∧ Uncarriable place) ∨
    ∃ key ∈ ["workDoneToken", "partialResultToken"], ∃ place, tokenPlace? key body = some place ∧
      Uncarriable place ∧ ¬ Bytes.ascii "null" <+: Json.skipSpace place

/-- A value that stands for a token is `null` or can be carried. -/
theorem TokenStands.carriable {place : Bytes} {token : Option Identifier}
    (stands : TokenStands (some place) token) :
    Bytes.ascii "null" <+: Json.skipSpace place ∨ ¬ Uncarriable place := by
  cases token with
  | none => exact .inl stands
  | some id => exact .inr fun uncarriable => uncarriable id stands

/-- A request carries all of its values. -/
theorem Carries.not_holdsUncarriable {body : Bytes} {request : DiagnosticRequest}
    (carries : Carries body request) : ¬ HoldsUncarriable body := by
  have token {key : String} {token : Option Identifier} {place : Bytes}
      (stands : TokenStands (tokenPlace? key body) token) (placed : tokenPlace? key body = some place)
      (uncarriable : Uncarriable place) (present : ¬ Bytes.ascii "null" <+: Json.skipSpace place) :
      False := by
    rw [placed] at stands
    rcases stands.carriable with missing | carriable
    · exact present missing
    · exact carriable uncarriable
  rintro (⟨place, placed, uncarriable⟩ | ⟨key, known, place, placed, uncarriable, present⟩)
  · obtain ⟨place', placed', stands⟩ := carries.id
    obtain rfl := Option.some.inj (placed.symm.trans placed')
    exact uncarriable _ stands
  · rcases List.mem_pair.mp known with rfl | rfl
    · exact token carries.workDoneToken placed uncarriable present
    · exact token carries.partialResultToken placed uncarriable present

/-! ## The widened request -/

/-- Widening changes the range and nothing else that is known of a request, and doing it again changes
nothing. What is written is an object of the known members, without those that are missing; it is read
back as the request that came, with the range of the document that the request names. The values for the
version, the identifier, the method and the tokens stand in what is written as they stand in what came. A
text with a value that cannot be carried so is not widened at all. -/
theorem widening_changes_range (disk : Disk) (body : Bytes) :
    (∀ text, (expand disk body).value = .ok text →
      ∃ request path content,
        parse DiagnosticRequest.read body = .ok request ∧
        documentPath request.params.textDocument.uri = .ok path ∧ disk.read path = .ok content ∧
        let written := Text.Utf8.encode text
        let range : Range :=
          ⟨⟨0, 0⟩, ⟨(Text.lineMetrics (Text.Utf8.lossy content)).lines,
            (Text.lineMetrics (Text.Utf8.lossy content)).last⟩⟩
        parse DiagnosticRequest.read written = .ok (request.withRange range) ∧
        text = Json.printObject
          [("jsonrpc", Json.quote request.version), ("id", request.id.print),
           ("method", Json.quote request.method),
           ("params", Json.printObject
             (("textDocument", Json.printObject [("uri", Json.quote request.params.textDocument.uri)]) ::
               ("range", range.print) ::
                 (optionalMember "workDoneToken" Identifier.print request.params.workDoneToken ++
                   optionalMember "partialResultToken" Identifier.print
                     request.params.partialResultToken)))] ∧
        Carries body request ∧ Carries written (request.withRange range) ∧
        (expand disk written).value = .ok text) ∧
    (HoldsUncarriable body → ∃ fault, (expand disk body).value = .error fault) := by
  constructor
  · intro text widened
    obtain ⟨request, path, content, parsed, located, read, rfl⟩ := expand_eq_ok_iff.mp widened
    have carries := carries_of_parse parsed
    have back : parse DiagnosticRequest.read
        (Text.Utf8.encode (request.withRange (documentRange content)).print) =
          .ok (request.withRange (documentRange content)) :=
      DiagnosticRequest.parse_print (carries.writable (documentRange_bounded content))
    refine ⟨request, path, content, parsed, located, read, back, rfl, carries, carries_of_parse back, ?_⟩
    -- the widened request names the same document, so its range is the one that it has
    exact expand_eq_ok_iff.mpr
      ⟨request.withRange (documentRange content), path, content, back, located, read, rfl⟩
  · intro uncarriable
    cases widened : (expand disk body).value with
    | error fault => exact ⟨fault, rfl⟩
    | ok text =>
      obtain ⟨request, _, _, parsed, _⟩ := expand_eq_ok_iff.mp widened
      exact absurd uncarriable (carries_of_parse parsed).not_holdsUncarriable

/-- A file system with one document. -/
def oneDocument : Disk :=
  { root := .leaf (Bytes.ascii "a") (.file (Bytes.ascii "one\ntwo") false) .empty }

/-- A request about this document, written as an array, whose identifier is spelled in a given way. -/
def spelledRequest (id : String) : Bytes :=
  Bytes.ascii ("[\"2.0\"," ++ id ++ ",\"m\",[[\"file:///a\"],null,\"\\u0041\"]]")

/-- This request with the least integer of 64 bits. -/
def leastRequest : DiagnosticRequest :=
  ⟨usualVersion, .number (-0x8000000000000000), "m",
    { textDocument := ⟨"file:///a"⟩, workDoneToken := some (.text "A") }⟩

/-- The least integer of 64 bits is carried. A point, the sign of a negative zero and an integer beyond 64
bits are refused. -/
theorem least_request_widened :
    (∃ text, (expand oneDocument (spelledRequest "-9223372036854775808")).value = .ok text ∧
      Carries (Text.Utf8.encode text) (leastRequest.withRange ⟨⟨0, 0⟩, ⟨2, 3⟩⟩) ∧
      (expand oneDocument (Text.Utf8.encode text)).value = .ok text) ∧
    ∀ id ∈ ["1.0", "-0", "9223372036854775808"],
      ∃ fault, (expand oneDocument (spelledRequest id)).value = .error fault := by
  constructor
  · have parsed : parse DiagnosticRequest.read (spelledRequest "-9223372036854775808") =
        .ok leastRequest := by
      decide +kernel
    have located : documentPath "file:///a" = .ok (Bytes.ascii "/a") := by decide +kernel
    have read : oneDocument.read (Bytes.ascii "/a") = .ok (Bytes.ascii "one\ntwo") := by cbv
    have measured : documentRange (Bytes.ascii "one\ntwo") = ⟨⟨0, 0⟩, ⟨2, 3⟩⟩ := by decide +kernel
    have widened := expand_eq_ok_iff.mpr ⟨leastRequest, _, _, parsed, located, read, rfl⟩
    obtain ⟨request, path, content, parsed', located', read', _, _, _, carries, again⟩ :=
      (widening_changes_range oneDocument (spelledRequest "-9223372036854775808")).1 _ widened
    obtain rfl := Except.ok.inj (parsed.symm.trans parsed')
    obtain rfl := Except.ok.inj (located.symm.trans located')
    obtain rfl := Except.ok.inj (read.symm.trans read')
    change Carries _ (leastRequest.withRange (documentRange (Bytes.ascii "one\ntwo"))) at carries
    rw [measured] at carries
    exact ⟨_, widened, carries, again⟩
  · have refused : ∀ id ∈ ["1.0", "-0", "9223372036854775808"],
        (place? requestFields "id" (spelledRequest id)).any
          (fun place => (Identifier.read Json.depthLimit place).toOption.isNone) = true := by
      decide +kernel
    intro id member
    obtain ⟨place, placed, none⟩ := (Option.any_eq_true _ _).mp (refused id member)
    apply (widening_changes_range oneDocument (spelledRequest id)).2
    refine .inl ⟨place, placed, (uncarriable_iff Json.depthLimit).mpr ?_⟩
    cases read : Identifier.read Json.depthLimit place with
    | error fault => exact ⟨fault, rfl⟩
    | ok result =>
      rw [read] at none
      exact absurd none (by simp [Except.toOption])

end LspProxy.Message
