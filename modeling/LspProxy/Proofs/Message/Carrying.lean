import LspProxy.Proofs.Json.Lexemes
import LspProxy.Proofs.Json.Places
import LspProxy.Proofs.Message.Requests

/-!
# What a request takes from its text

A diagnostic request has its version, its identifier, its method and its tokens from the values that stand
for them in its text (`Carries`). Which values these are is known from the places of the members alone, so
it can be said of any text, also of one that is no request because of one of them.

All of it follows from what is kept side by side while the parameters and the request are read: the draft
of the record and the places of its members.
-/
namespace LspProxy.Message

open Json (Passes EachPasses Places Tracks place? bind_eq_ok_iff)

/-! ## Values that are passed over -/

theorem Identifier.passes {depth : Nat} {input rest : Bytes} {id : Identifier}
    (read : Identifier.read depth input = .ok (id, rest)) : Passes input rest := by
  have stands := Identifier.read_eq_ok_iff.mp read
  cases id with
  | text value => exact Json.passes_readText stands
  | number value =>
    intro opened
    rcases stands.number_cases with ⟨later, begins, number⟩ | ⟨b, later, begins, digit, number⟩
    · exact Json.reaches_lexeme begins (Json.skipNumber_of_readNumber number)
    · have passed := Json.skipNumber_of_readNumber number
      exact Json.reaches_lexeme begins ((Json.skipLexeme_of_digit digit).trans passed)

theorem eachPasses_halves {α : Type} {firstKey secondKey : String}
    {read : Nat → Bytes → Except Json.Fault (α × Bytes)}
    (passes : ∀ {depth : Nat} {input rest : Bytes} {value : α},
      read depth input = .ok (value, rest) → Passes input rest) :
    EachPasses (halvesFields firstKey secondKey read) := by
  intro field member state next depth input rest found
  rcases List.mem_pair.mp member with rfl | rfl
  · obtain ⟨value, part, made⟩ := bind_eq_ok_iff.mp found
    obtain ⟨-, rfl⟩ := Prod.mk.inj (Except.ok.inj made)
    exact passes part
  · obtain ⟨value, part, made⟩ := bind_eq_ok_iff.mp found
    obtain ⟨-, rfl⟩ := Prod.mk.inj (Except.ok.inj made)
    exact passes part

theorem passes_halves {α : Type} {firstKey secondKey : String}
    {read : Nat → Bytes → Except Json.Fault (α × Bytes)}
    (passes : ∀ {depth : Nat} {input rest : Bytes} {value : α},
      read depth input = .ok (value, rest) → Passes input rest)
    {depth : Nat} {input rest : Bytes} {found : α × α}
    (halves : readHalves firstKey secondKey read depth input = .ok (found, rest)) :
    Passes input rest := by
  obtain ⟨⟨state, behind⟩, record, complete⟩ :
      ∃ result, Json.readRecord (halvesFields firstKey secondKey read) {} depth input = .ok result ∧ _ :=
    bind_eq_ok_iff.mp halves
  dsimp only at complete
  split at complete
  · obtain ⟨-, rfl⟩ := Prod.mk.inj (Except.ok.inj complete)
    exact Json.passes_readRecord (eachPasses_halves passes) record
  · exact absurd complete (by simp)

theorem Position.passes {depth : Nat} {input rest : Bytes} {position : Position}
    (read : Position.read depth input = .ok (position, rest)) : Passes input rest := by
  obtain ⟨halves, found, made⟩ := bind_eq_ok_iff.mp read
  obtain ⟨-, rfl⟩ := Prod.mk.inj (Except.ok.inj made)
  exact passes_halves Json.passes_readNatural found

theorem Range.passes {depth : Nat} {input rest : Bytes} {range : Range}
    (read : Range.read depth input = .ok (range, rest)) : Passes input rest := by
  obtain ⟨halves, found, made⟩ := bind_eq_ok_iff.mp read
  obtain ⟨-, rfl⟩ := Prod.mk.inj (Except.ok.inj made)
  exact passes_halves Position.passes found

theorem eachPasses_uri : EachPasses [uriField] := by
  intro field member state next depth input rest found
  obtain rfl := List.mem_singleton.mp member
  obtain ⟨value, text, made⟩ := bind_eq_ok_iff.mp found
  obtain ⟨-, rfl⟩ := Prod.mk.inj (Except.ok.inj made)
  exact Json.passes_readText text

theorem TextDocument.passes {depth : Nat} {input rest : Bytes} {document : TextDocument}
    (read : TextDocument.read depth input = .ok (document, rest)) : Passes input rest := by
  obtain ⟨⟨state, behind⟩, record, complete⟩ :
      ∃ result, Json.readRecord [uriField] none depth input = .ok result ∧ _ := bind_eq_ok_iff.mp read
  cases state with
  | none => exact absurd complete (by simp)
  | some uri =>
    obtain ⟨-, rfl⟩ := Prod.mk.inj (Except.ok.inj complete)
    exact Json.passes_readRecord eachPasses_uri record

/-! ## Tokens -/

theorem Identifier.Stands.blanks {input rest : Bytes} {id : Identifier}
    (stands : id.Stands (Json.skipSpace input) rest) : id.Stands input rest := by
  cases id with
  | number value =>
    obtain ⟨range, spelled, ends⟩ := stands
    rw [Json.skipSpace_skipSpace] at spelled
    exact ⟨range, spelled, ends⟩
  | text value =>
    change Json.readText (Json.skipSpace input) = _ at stands
    unfold Json.readText at stands
    rw [Json.skipSpace_skipSpace] at stands
    exact stands

/-- What a token has from the value that stands for it. There is no token where there is no value, or
the value is `null`. -/
def TokenStands : Option Bytes → Option Identifier → Prop
  | none, token => token = none
  | some place, none => Bytes.ascii "null" <+: Json.skipSpace place
  | some place, some token => ∃ rest, token.Stands place rest

theorem tokenStands_of_read {depth : Nat} {input rest : Bytes} {token : Option Identifier}
    (read : Json.readOptional (Identifier.read depth) input = .ok (token, rest)) :
    TokenStands (some input) token := by
  unfold Json.readOptional at read
  split at read
  · rename_i later first
    obtain ⟨behind, passed, made⟩ := bind_eq_ok_iff.mp read
    obtain ⟨rfl, rfl⟩ := Prod.mk.inj (Except.ok.inj made)
    have null : Bytes.ascii "null" ++ behind = 0x6E :: (Json.nullRest ++ behind) := rfl
    refine ⟨behind, ?_⟩
    rw [first, Json.keyword_eq_ok_iff.mp passed, null]
  · obtain ⟨⟨id, behind⟩, found, made⟩ := bind_eq_ok_iff.mp read
    obtain ⟨rfl, rfl⟩ := Prod.mk.inj (Except.ok.inj made)
    exact ⟨behind, (Identifier.read_eq_ok_iff.mp found).blanks⟩

/-! ## Parameters -/

theorem isSome_of_rel {α β : Type} {r : α → β → Prop} {first : Option α} {second : Option β}
    (related : Option.Rel r first second) : second.isSome = first.isSome := by
  cases related with
  | some related => rfl
  | none => rfl

/-- What has been read of the parameters, beside the places of their members. -/
structure ParamsTracked (draft : ParamsDraft) (places : Places) : Prop where
  textDocument : draft.textDocument.isSome = (places.lookup "textDocument").isSome
  range : draft.range.isSome = (places.lookup "range").isSome
  workDoneToken : Option.Rel (fun place => TokenStands (some place))
    (places.lookup "workDoneToken") draft.workDoneToken
  partialResultToken : Option.Rel (fun place => TokenStands (some place))
    (places.lookup "partialResultToken") draft.partialResultToken

theorem paramsFields_tracks : Tracks ParamsTracked paramsFields := by
  constructor
  · intro field member state next depth input rest read
    simp only [paramsFields, List.mem_cons, List.not_mem_nil, or_false] at member
    rcases member with rfl | rfl | rfl | rfl
    all_goals
      obtain ⟨⟨value, behind⟩, found, made⟩ := bind_eq_ok_iff.mp read
      obtain ⟨-, rfl⟩ := Prod.mk.inj (Except.ok.inj made)
    · exact TextDocument.passes found
    · exact Json.passes_readOptional Range.passes found
    · exact Json.passes_readOptional Identifier.passes found
    · exact Json.passes_readOptional Identifier.passes found
  · intro field member state places tracked
    simp only [paramsFields, List.mem_cons, List.not_mem_nil, or_false] at member
    rcases member with rfl | rfl | rfl | rfl
    · exact tracked.textDocument
    · exact tracked.range
    · exact isSome_of_rel tracked.workDoneToken
    · exact isSome_of_rel tracked.partialResultToken
  · intro field member state next places depth input rest tracked read
    obtain ⟨textDocument, range, workDoneToken, partialResultToken⟩ := tracked
    simp only [paramsFields, List.mem_cons, List.not_mem_nil, or_false] at member
    rcases member with rfl | rfl | rfl | rfl
    all_goals
      obtain ⟨⟨value, behind⟩, found, made⟩ := bind_eq_ok_iff.mp read
      obtain ⟨rfl, rfl⟩ := Prod.mk.inj (Except.ok.inj made)
    · exact ⟨rfl, range, workDoneToken, partialResultToken⟩
    · exact ⟨textDocument, rfl, workDoneToken, partialResultToken⟩
    · exact ⟨textDocument, range, .some (tokenStands_of_read found), partialResultToken⟩
    · exact ⟨textDocument, range, workDoneToken, .some (tokenStands_of_read found)⟩

/-- The tokens of parameters stand in their text. -/
structure ParamsCarried (input : Bytes) (params : DiagnosticParams) : Prop where
  workDoneToken : TokenStands (place? paramsFields "workDoneToken" input) params.workDoneToken
  partialResultToken :
    TokenStands (place? paramsFields "partialResultToken" input) params.partialResultToken

/-- A token that has been read is the token of the draft. -/
theorem tokenStands_join {place : Option Bytes} {token : Option (Option Identifier)}
    (tracked : Option.Rel (fun place => TokenStands (some place)) place token) :
    TokenStands place token.join := by
  cases tracked with
  | some stands => exact stands
  | none => rfl

/-- Where a record has been read, the place of a member is the place noted. -/
theorem place?_eq {σ : Type} {fields : List (Json.Field σ)} {input rest : Bytes} {places : Places}
    (noted : Json.readRecord (fields.map Json.Field.place) [] Json.depthLimit input =
      .ok (places, rest)) (key : String) :
    place? fields key input = places.lookup key := by
  unfold place?
  rw [noted]

theorem DiagnosticParams.carried {depth : Nat} {input rest : Bytes} {params : DiagnosticParams}
    (read : DiagnosticParams.read depth input = .ok (params, rest)) :
    Passes input rest ∧ ParamsCarried input params := by
  have start : ParamsTracked {} [] := ⟨rfl, rfl, .none, .none⟩
  obtain ⟨⟨draft, behind⟩, record, complete⟩ := bind_eq_ok_iff.mp read
  obtain ⟨places, noted, tracked⟩ :=
    Json.readRecord_places paramsFields_tracks (by decide : 1 < Json.depthLimit) start record
  dsimp only at complete
  split at complete
  · obtain ⟨rfl, rfl⟩ := Prod.mk.inj (Except.ok.inj complete)
    refine ⟨Json.passes_readRecord paramsFields_tracks.passes record, ?_⟩
    constructor
    · rw [place?_eq noted]
      exact tokenStands_join tracked.workDoneToken
    · rw [place?_eq noted]
      exact tokenStands_join tracked.partialResultToken
  · exact absurd complete (by simp)

/-! ## Requests -/

/-- A text stands at a place. -/
def TextStands (place : Bytes) (text : String) : Prop := ∃ rest, Json.readText place = .ok (text, rest)

/-- An identifier stands at a place. -/
def IdentifierStands (place : Bytes) (id : Identifier) : Prop := ∃ rest, id.Stands place rest

/-- What has been read of a request, beside the places of its members. -/
structure RequestTracked (draft : RequestDraft) (places : Places) : Prop where
  version : Option.Rel TextStands (places.lookup "jsonrpc") draft.version
  id : Option.Rel IdentifierStands (places.lookup "id") draft.id
  method : Option.Rel TextStands (places.lookup "method") draft.method
  params : Option.Rel ParamsCarried (places.lookup "params") draft.params

theorem requestFields_tracks : Tracks RequestTracked requestFields := by
  constructor
  · intro field member state next depth input rest read
    simp only [requestFields, List.mem_cons, List.not_mem_nil, or_false] at member
    rcases member with rfl | rfl | rfl | rfl
    all_goals
      obtain ⟨⟨value, behind⟩, found, made⟩ := bind_eq_ok_iff.mp read
      obtain ⟨-, rfl⟩ := Prod.mk.inj (Except.ok.inj made)
    · exact Json.passes_readText found
    · exact Identifier.passes found
    · exact Json.passes_readText found
    · exact (DiagnosticParams.carried found).1
  · intro field member state places tracked
    simp only [requestFields, List.mem_cons, List.not_mem_nil, or_false] at member
    rcases member with rfl | rfl | rfl | rfl
    · exact isSome_of_rel tracked.version
    · exact isSome_of_rel tracked.id
    · exact isSome_of_rel tracked.method
    · exact isSome_of_rel tracked.params
  · intro field member state next places depth input rest tracked read
    obtain ⟨version, id, method, params⟩ := tracked
    simp only [requestFields, List.mem_cons, List.not_mem_nil, or_false] at member
    rcases member with rfl | rfl | rfl | rfl
    all_goals
      obtain ⟨⟨value, behind⟩, found, made⟩ := bind_eq_ok_iff.mp read
      obtain ⟨rfl, rfl⟩ := Prod.mk.inj (Except.ok.inj made)
    · exact ⟨.some ⟨_, found⟩, id, method, params⟩
    · exact ⟨version, .some ⟨_, Identifier.read_eq_ok_iff.mp found⟩, method, params⟩
    · exact ⟨version, id, .some ⟨_, found⟩, params⟩
    · exact ⟨version, id, method, .some (DiagnosticParams.carried found).2⟩

/-- The place of a token in the text of a request. -/
def tokenPlace? (key : String) (body : Bytes) : Option Bytes := do
  place? paramsFields key (← place? requestFields "params" body)

/-- What a version has from the value that stands for it. Where there is none the version is the usual
one. -/
def VersionStands : Option Bytes → String → Prop
  | none, version => version = usualVersion
  | some place, version => TextStands place version

theorem versionStands_getD {place : Option Bytes} {version : Option String}
    (tracked : Option.Rel TextStands place version) :
    VersionStands place (version.getD usualVersion) := by
  cases tracked with
  | some stands => exact stands
  | none => rfl

/-- The parts of a request are the values that stand for them in its text. The identifier and the method
are never missing. -/
structure Carries (body : Bytes) (request : DiagnosticRequest) : Prop where
  version : VersionStands (place? requestFields "jsonrpc" body) request.version
  id : ∃ place, place? requestFields "id" body = some place ∧ IdentifierStands place request.id
  method : ∃ place, place? requestFields "method" body = some place ∧ TextStands place request.method
  workDoneToken : TokenStands (tokenPlace? "workDoneToken" body) request.params.workDoneToken
  partialResultToken :
    TokenStands (tokenPlace? "partialResultToken" body) request.params.partialResultToken

/-- A value that has been read stands at its place. -/
theorem exists_of_rel {α β : Type} {r : α → β → Prop} {place : Option α} {value : β}
    (tracked : Option.Rel r place (some value)) : ∃ found, place = some found ∧ r found value := by
  cases tracked with
  | some related => exact ⟨_, rfl, related⟩

/-- A request has its parts from its text. -/
theorem carries_of_parse {body : Bytes} {request : DiagnosticRequest}
    (parsed : parse DiagnosticRequest.read body = .ok request) : Carries body request := by
  have start : RequestTracked {} [] := ⟨.none, .none, .none, .none⟩
  obtain ⟨⟨found, behind⟩, read, finished⟩ := bind_eq_ok_iff.mp parsed
  obtain ⟨⟨draft, behind'⟩, record, complete⟩ := bind_eq_ok_iff.mp read
  obtain ⟨places, noted, tracked⟩ :=
    Json.readRecord_places requestFields_tracks (by decide : 1 < Json.depthLimit) start record
  obtain ⟨version, id, method, params⟩ := tracked
  have same : found = request := by
    change (if _ then _ else _) = _ at finished
    split at finished
    · exact Except.ok.inj finished
    · exact absurd finished (by simp)
  subst same
  dsimp only at complete
  split at complete
  · rename_i id' method' params' idRead methodRead paramsRead
    obtain ⟨rfl, rfl⟩ := Prod.mk.inj (Except.ok.inj complete)
    rw [idRead] at id
    rw [methodRead] at method
    rw [paramsRead] at params
    obtain ⟨place, placed, carried⟩ := exists_of_rel params
    have token (key : String) : tokenPlace? key body = place? paramsFields key place := by
      unfold tokenPlace?
      rw [place?_eq noted, placed]
      rfl
    constructor
    · rw [place?_eq noted]
      exact versionStands_getD version
    · rw [place?_eq noted]
      exact exists_of_rel id
    · rw [place?_eq noted]
      exact exists_of_rel method
    · rw [token]
      exact carried.workDoneToken
    · rw [token]
      exact carried.partialResultToken
  · exact absurd complete (by simp)

end LspProxy.Message
