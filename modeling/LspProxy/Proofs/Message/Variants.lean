import LspProxy.Proofs.Json.Variants
import LspProxy.Proofs.Message.Methods
import LspProxy.Proofs.Message.Widening

/-!
# Variants of a request

A request is widened alike from all messages that say the same of what is known of it
(`variants_widened_alike`). Of the request, of its parameters and of its document the members may be written in
any order and with any members in between that are not known, whatever their values are; and blanks may stand
between all tokens of the message.

Each of the records that are nested in a request reads each of its fields for itself, so all of it follows from
the law of one record, from the innermost out.
-/
namespace LspProxy.Message

open Json (Blanks Derives EndsNumber Independent IsObject NamedMember Passes Respaced Respects Varied bind_eq_ok_iff)

/-! ## Values -/

theorem Identifier.respects (depth : Nat) : Respects (Respaced .value) (Identifier.read depth) := by
  intro value value' blanks rest id respaced isBlanks read
  have stands := Identifier.read_eq_ok_iff.mp read
  cases id with
  | text text =>
    have yields := Json.respects_readText respaced isBlanks stands
    intro blanks' rest' isBlanks' ends
    exact Identifier.read_eq_ok_iff.mpr (yields isBlanks' ends)
  | number number =>
    obtain ⟨b, later, later', rfl, rfl, solid, -, same⟩ := respaced.begins
    -- a number is no bracket, so its tokens are all of its bytes
    have first : b = 0x2D ∨ Json.isDigit b = true := by
      rcases stands.number_cases with ⟨inner, begins, -⟩ | ⟨c, inner, begins, digit, -⟩
      · rw [List.cons_append, isBlanks.before solid] at begins
        exact .inl (List.cons.inj begins).1
      · rw [List.cons_append, isBlanks.before solid] at begins
        exact .inr ((List.cons.inj begins).1 ▸ digit)
    have kept : later' = later := by
      apply same
      · rintro rfl
        exact absurd first (by decide)
      · rintro rfl
        exact absurd first (by decide)
    obtain ⟨range, spelled, -⟩ := stands
    rw [List.cons_append, isBlanks.before solid, ← List.cons_append] at spelled
    have whole := List.append_cancel_right spelled
    rw [kept]
    intro blanks' rest' isBlanks' ends
    apply Identifier.read_eq_ok_iff.mpr
    refine ⟨range, ?_, ends⟩
    rw [List.cons_append, isBlanks'.before solid, ← List.cons_append, whole]

/-! ## Records of two parts -/

theorem independent_halves {α : Type} {firstKey secondKey : String} (different : firstKey ≠ secondKey)
    {read : Nat → Bytes → Except Json.Fault (α × Bytes)}
    (passes : ∀ {depth : Nat} {input rest : Bytes} {value : α},
      read depth input = .ok (value, rest) → Passes input rest)
    (respects : ∀ depth, Respects (Respaced .value) (read depth)) :
    Independent (halvesFields firstKey secondKey read) := by
  constructor
  · exact eachPasses_halves passes
  · intro field member state depth
    rcases List.mem_pair.mp member with rfl | rfl
    · exact (respects depth).map fun value => { state with first := some value }
    · exact (respects depth).map fun value => { state with second := some value }
  · intro field member other member' state next depth input rest taken
    rcases List.mem_pair.mp member with rfl | rfl
    all_goals
      obtain ⟨⟨value, behind⟩, found, made⟩ := bind_eq_ok_iff.mp taken
      obtain ⟨rfl, rfl⟩ := Prod.mk.inj (Except.ok.inj made)
      rcases List.mem_pair.mp member' with rfl | rfl
      all_goals simp [different, different.symm]
  · intro field member other member' apart state middle last depth here behind there rest taken taken'
    rcases List.mem_pair.mp member with rfl | rfl
    all_goals
      obtain ⟨⟨value, behind⟩, found, made⟩ := bind_eq_ok_iff.mp taken
      obtain ⟨rfl, rfl⟩ := Prod.mk.inj (Except.ok.inj made)
      rcases List.mem_pair.mp member' with rfl | rfl
      all_goals
        obtain ⟨⟨value', behind'⟩, found', made'⟩ := bind_eq_ok_iff.mp taken'
        obtain ⟨rfl, rfl⟩ := Prod.mk.inj (Except.ok.inj made')
        -- the same field twice, or two that are noted in different places
        first
        | exact absurd rfl apart
        | exact ⟨_, bind_eq_ok_iff.mpr ⟨_, found', rfl⟩, bind_eq_ok_iff.mpr ⟨_, found, rfl⟩⟩

theorem respects_halves {α : Type} {firstKey secondKey : String} (different : firstKey ≠ secondKey)
    {read : Nat → Bytes → Except Json.Fault (α × Bytes)}
    (passes : ∀ {depth : Nat} {input rest : Bytes} {value : α},
      read depth input = .ok (value, rest) → Passes input rest)
    (respects : ∀ depth, Respects (Respaced .value) (read depth)) (depth : Nat) :
    Respects (Respaced .value) (readHalves firstKey secondKey read depth) := by
  have record : Respects (Respaced .value) (Json.readRecord (halvesFields firstKey secondKey read) {} depth) :=
    Json.respects_readRecord (independent_halves different passes respects)
  apply record.bind
  intro state rest behind result made
  dsimp only at made
  split at made
  · rename_i first second firstRead secondRead
    obtain ⟨rfl, rfl⟩ := Prod.mk.inj (Except.ok.inj made)
    refine ⟨rfl, fun after => ?_⟩
    dsimp only
    rw [firstRead, secondRead]
    rfl
  · exact absurd made (by simp)

theorem Position.respects (depth : Nat) : Respects (Respaced .value) (Position.read depth) := by
  have halves : Respects (Respaced .value)
      (readHalves "line" "character" (fun _ => Json.readNatural coordinateBound) depth) :=
    respects_halves (by decide) Json.passes_readNatural (fun _ => Json.respects_readNatural coordinateBound) depth
  exact halves.map fun parts => (⟨parts.1, parts.2⟩ : Position)

theorem Range.respects (depth : Nat) : Respects (Respaced .value) (Range.read depth) := by
  have halves : Respects (Respaced .value) (readHalves "start" "end" Position.read depth) :=
    respects_halves (by decide) Position.passes Position.respects depth
  exact halves.map fun parts => (⟨parts.1, parts.2⟩ : Range)

/-! ## Documents -/

theorem independent_uri : Independent [uriField] := by
  apply Json.independent_single eachPasses_uri
  · intro state depth
    exact Json.respects_readText.map some
  · intro state next depth input rest taken
    obtain ⟨⟨value, behind⟩, found, made⟩ := bind_eq_ok_iff.mp taken
    obtain ⟨rfl, rfl⟩ := Prod.mk.inj (Except.ok.inj made)
    rfl

/-- Two values that say the same of a document. -/
def DocumentVariant : Bytes → Bytes → Prop := Varied ["uri"] fun _ => Respaced .value

/-- A document is read alike from whatever its record is read alike from. -/
theorem TextDocument.respects_of_record {alike : Bytes → Bytes → Prop} {depth : Nat}
    (record : Respects alike (Json.readRecord [uriField] none depth)) :
    Respects alike (TextDocument.read depth) := by
  apply record.bind
  intro uri rest behind document made
  cases uri with
  | none => exact absurd made (by simp)
  | some uri =>
    obtain ⟨rfl, rfl⟩ := Prod.mk.inj (Except.ok.inj made)
    exact ⟨rfl, fun after => rfl⟩

theorem TextDocument.respects (depth : Nat) : Respects (Respaced .value) (TextDocument.read depth) :=
  TextDocument.respects_of_record (Json.respects_readRecord independent_uri)

theorem TextDocument.respects_variant (depth : Nat) : Respects DocumentVariant (TextDocument.read depth) :=
  TextDocument.respects_of_record (Json.respects_varied independent_uri independent_uri.respects)

/-! ## Parameters -/

theorem independent_params : Independent paramsFields := by
  constructor
  · exact paramsFields_tracks.passes
  · intro field member state depth
    simp only [paramsFields, List.mem_cons, List.not_mem_nil, or_false] at member
    rcases member with rfl | rfl | rfl | rfl
    · exact (TextDocument.respects depth).map fun value => { state with textDocument := some value }
    · exact (Range.respects depth).optional.map fun value => { state with range := some value }
    · exact (Identifier.respects depth).optional.map fun value => { state with workDoneToken := some value }
    · exact (Identifier.respects depth).optional.map fun value => { state with partialResultToken := some value }
  · intro field member other member' state next depth input rest taken
    simp only [paramsFields, List.mem_cons, List.not_mem_nil, or_false] at member member'
    rcases member with rfl | rfl | rfl | rfl
    all_goals
      obtain ⟨⟨value, behind⟩, found, made⟩ := bind_eq_ok_iff.mp taken
      obtain ⟨rfl, rfl⟩ := Prod.mk.inj (Except.ok.inj made)
      rcases member' with rfl | rfl | rfl | rfl
      all_goals rfl
  · intro field member other member' apart state middle last depth here behind there rest taken taken'
    simp only [paramsFields, List.mem_cons, List.not_mem_nil, or_false] at member member'
    rcases member with rfl | rfl | rfl | rfl
    all_goals
      obtain ⟨⟨value, behind⟩, found, made⟩ := bind_eq_ok_iff.mp taken
      obtain ⟨rfl, rfl⟩ := Prod.mk.inj (Except.ok.inj made)
      rcases member' with rfl | rfl | rfl | rfl
      all_goals
        obtain ⟨⟨value', behind'⟩, found', made'⟩ := bind_eq_ok_iff.mp taken'
        obtain ⟨rfl, rfl⟩ := Prod.mk.inj (Except.ok.inj made')
        -- the same field twice, or two that are noted in different places
        first
        | exact absurd rfl apart
        | exact ⟨_, bind_eq_ok_iff.mpr ⟨_, found', rfl⟩, bind_eq_ok_iff.mpr ⟨_, found, rfl⟩⟩

/-- Two values that say the same of parameters. -/
def ParamsVariant : Bytes → Bytes → Prop :=
  Varied (paramsFields.map (·.key)) fun name =>
    if name = "textDocument" then DocumentVariant else Respaced .value

theorem DiagnosticParams.respects_of_record {alike : Bytes → Bytes → Prop} {depth : Nat}
    (record : Respects alike (Json.readRecord paramsFields {} depth)) :
    Respects alike (DiagnosticParams.read depth) := by
  apply record.bind
  intro draft rest behind params made
  dsimp only at made
  split at made
  · rename_i document documentRead
    obtain ⟨rfl, rfl⟩ := Prod.mk.inj (Except.ok.inj made)
    refine ⟨rfl, fun after => ?_⟩
    dsimp only
    rw [documentRead]
    rfl
  · exact absurd made (by simp)

theorem DiagnosticParams.respects (depth : Nat) : Respects (Respaced .value) (DiagnosticParams.read depth) :=
  DiagnosticParams.respects_of_record (Json.respects_readRecord independent_params)

theorem DiagnosticParams.respects_variant (depth : Nat) :
    Respects ParamsVariant (DiagnosticParams.read depth) := by
  apply DiagnosticParams.respects_of_record
  apply Json.respects_varied independent_params
  intro field member state depth
  simp only [paramsFields, List.mem_cons, List.not_mem_nil, or_false] at member
  rcases member with rfl | rfl | rfl | rfl
  · exact (TextDocument.respects_variant depth).map fun value => { state with textDocument := some value }
  · exact (Range.respects depth).optional.map fun value => { state with range := some value }
  · exact (Identifier.respects depth).optional.map fun value => { state with workDoneToken := some value }
  · exact (Identifier.respects depth).optional.map fun value => { state with partialResultToken := some value }

/-! ## Requests -/

theorem independent_request : Independent requestFields := by
  constructor
  · exact requestFields_tracks.passes
  · intro field member state depth
    simp only [requestFields, List.mem_cons, List.not_mem_nil, or_false] at member
    rcases member with rfl | rfl | rfl | rfl
    · exact Json.respects_readText.map fun value => { state with version := some value }
    · exact (Identifier.respects depth).map fun value => { state with id := some value }
    · exact Json.respects_readText.map fun value => { state with method := some value }
    · exact (DiagnosticParams.respects depth).map fun value => { state with params := some value }
  · intro field member other member' state next depth input rest taken
    simp only [requestFields, List.mem_cons, List.not_mem_nil, or_false] at member member'
    rcases member with rfl | rfl | rfl | rfl
    all_goals
      obtain ⟨⟨value, behind⟩, found, made⟩ := bind_eq_ok_iff.mp taken
      obtain ⟨rfl, rfl⟩ := Prod.mk.inj (Except.ok.inj made)
      rcases member' with rfl | rfl | rfl | rfl
      all_goals rfl
  · intro field member other member' apart state middle last depth here behind there rest taken taken'
    simp only [requestFields, List.mem_cons, List.not_mem_nil, or_false] at member member'
    rcases member with rfl | rfl | rfl | rfl
    all_goals
      obtain ⟨⟨value, behind⟩, found, made⟩ := bind_eq_ok_iff.mp taken
      obtain ⟨rfl, rfl⟩ := Prod.mk.inj (Except.ok.inj made)
      rcases member' with rfl | rfl | rfl | rfl
      all_goals
        obtain ⟨⟨value', behind'⟩, found', made'⟩ := bind_eq_ok_iff.mp taken'
        obtain ⟨rfl, rfl⟩ := Prod.mk.inj (Except.ok.inj made')
        -- the same field twice, or two that are noted in different places
        first
        | exact absurd rfl apart
        | exact ⟨_, bind_eq_ok_iff.mpr ⟨_, found', rfl⟩, bind_eq_ok_iff.mpr ⟨_, found, rfl⟩⟩

theorem DiagnosticRequest.passes {depth : Nat} {input rest : Bytes} {request : DiagnosticRequest}
    (read : DiagnosticRequest.read depth input = .ok (request, rest)) : Passes input rest := by
  obtain ⟨⟨draft, behind⟩, record, complete⟩ := bind_eq_ok_iff.mp read
  dsimp only at complete
  split at complete
  · obtain ⟨-, rfl⟩ := Prod.mk.inj (Except.ok.inj complete)
    exact Json.passes_readRecord requestFields_tracks.passes record
  · exact absurd complete (by simp)

/-- Two values that say the same of a request. -/
def RequestVariant : Bytes → Bytes → Prop :=
  Varied (requestFields.map (·.key)) fun name => if name = "params" then ParamsVariant else Respaced .value

theorem DiagnosticRequest.respects_variant (depth : Nat) :
    Respects RequestVariant (DiagnosticRequest.read depth) := by
  have record : Respects RequestVariant (Json.readRecord requestFields {} depth) := by
    apply Json.respects_varied independent_request
    intro field member state depth
    simp only [requestFields, List.mem_cons, List.not_mem_nil, or_false] at member
    rcases member with rfl | rfl | rfl | rfl
    · exact Json.respects_readText.map fun value => { state with version := some value }
    · exact (Identifier.respects depth).map fun value => { state with id := some value }
    · exact Json.respects_readText.map fun value => { state with method := some value }
    · exact (DiagnosticParams.respects_variant depth).map fun value => { state with params := some value }
  apply record.bind
  intro draft rest behind request made
  dsimp only at made
  split at made
  · rename_i id method params idRead methodRead paramsRead
    obtain ⟨rfl, rfl⟩ := Prod.mk.inj (Except.ok.inj made)
    refine ⟨rfl, fun after => ?_⟩
    dsimp only
    rw [idRead, methodRead, paramsRead]
    rfl
  · exact absurd made (by simp)

/-! ## Messages -/

/-- Two messages that say the same of a request. -/
inductive Variant : Bytes → Bytes → Prop
  | whole {front front' value value' behind behind' : Bytes} (isFront : Blanks front) (isFront' : Blanks front')
      (values : RequestVariant value value') (isBehind : Blanks behind) (isBehind' : Blanks behind') :
      Variant (front ++ (value ++ behind)) (front' ++ (value' ++ behind'))

/-- A request is read alike from all messages that say the same of it. -/
theorem parse_variant {body body' : Bytes} {request : DiagnosticRequest} (variant : Variant body body')
    (parsed : parse DiagnosticRequest.read body = .ok request) :
    parse DiagnosticRequest.read body' = .ok request := by
  obtain ⟨isFront, isFront', values, isBehind, isBehind'⟩ := variant
  rename_i front front' value value' behind behind'
  obtain ⟨⟨found, rest⟩, read, finished⟩ := bind_eq_ok_iff.mp parsed
  obtain ⟨rfl, -⟩ := finish_eq_ok_iff.mp finished
  have ends {blanks : Bytes} (isBlanks : Blanks blanks) : EndsNumber blanks := by
    rw [← List.append_nil blanks]
    exact Json.endsNumber_blanks isBlanks Json.endsNumber_nil
  -- what the reader leaves is what stands behind the value
  have entry : Derives (.entry .array) (front ++ value) := .element isFront values.derives
  have reaches := DiagnosticRequest.passes read []
  rw [← List.append_assoc] at reaches
  obtain rfl := entry.behind (ends isBehind) rfl reaches
  have again := DiagnosticRequest.respects_variant Json.depthLimit values isFront read
  exact bind_eq_ok_iff.mpr ⟨_, again isFront' (ends isBehind'), finish_eq_ok_iff.mpr ⟨rfl, isBehind'⟩⟩

/-- A request is widened alike from all messages that say the same of it. -/
theorem variants_widened_alike (disk : Disk) (body body' : Bytes) (text : List Char)
    (variant : Variant body body') (widened : (expand disk body).value = .ok text) :
    (expand disk body').value = .ok text := by
  obtain ⟨request, path, content, parsed, located, read, rfl⟩ := expand_eq_ok_iff.mp widened
  exact expand_eq_ok_iff.mpr ⟨request, path, content, parse_variant variant parsed, located, read, rfl⟩

/-- A request with nothing but what is known, about the one document. -/
def plainRequest : Bytes :=
  Bytes.ascii "\x7b\"id\":3,\"method\":\"m\",\"params\":\x7b\"textDocument\":\x7b\"uri\":\"file:///a\"\x7d\x7d\x7d"

/-- The request in another order, with blanks and with members that are not known, some of them twice. -/
def crowdedRequest : Bytes :=
  Bytes.ascii (" \x7b\"previousResultId\":[1e999],\"params\" :\x7b\"identifier\":\x7b\"a\":[]\x7d," ++
    "\"textDocument\":\x7b\"uri\":\"file:///a\",\"x\":-0\x7d,\"identifier\":\"b\"\x7d,\n\"method\":\"m\"," ++
    "\"previousResultId\":\x7b\x7d,\"id\": 3\x7d\n")

/-- A member of ASCII characters, with blanks where they may stand. -/
theorem named_ascii (blanks name gap space value : String)
    (areBlanks : Blanks (Bytes.ascii blanks) ∧ Blanks (Bytes.ascii gap) ∧ Blanks (Bytes.ascii space))
    (read : Json.readString (Bytes.ascii name ++ [0x22]) = .ok (name, []))
    (isValue : Derives .value (Bytes.ascii value)) :
    NamedMember name (Bytes.ascii value) (Bytes.ascii blanks ++ 0x22 ::
      (Bytes.ascii name ++ 0x22 :: (Bytes.ascii gap ++ 0x3A :: (Bytes.ascii space ++ Bytes.ascii value)))) :=
  .written areBlanks.1 (Json.spells_of_readString read) areBlanks.2.1 areBlanks.2.2 isValue

/-- A document, and the same with a member that is not known. -/
theorem crowded_document :
    DocumentVariant (Bytes.ascii "\x7b\"uri\":\"file:///a\"\x7d")
      (Bytes.ascii "\x7b\"uri\":\"file:///a\",\"x\":-0\x7d") := by
  have uri : Derives .value (Bytes.ascii "\"file:///a\"") := Json.derives_of_skipValue rfl (by decide +kernel)
  have zero : Derives .value (Bytes.ascii "-0") := Json.derives_of_skipValue rfl (by decide +kernel)
  have known := named_ascii "" "uri" "" "" "\"file:///a\"" (by decide +kernel) (by decide +kernel) uri
  have unknown := named_ascii "" "x" "" "" "-0" (by decide +kernel) (by decide +kernel) zero
  have varied : DocumentVariant _ _ :=
    .object (.first known (.closing Json.blanks_nil))
      (.first known (.comma Json.blanks_nil unknown (.closing Json.blanks_nil)))
      (.member uri.respaced (.inserted (by decide) .done))
  exact (congrArg₂ DocumentVariant (by decide +kernel) (by decide +kernel)).mp varied

/-- Parameters about the document, and the same with a name that is not known on both sides of it. -/
theorem crowded_params :
    ParamsVariant (Bytes.ascii "\x7b\"textDocument\":\x7b\"uri\":\"file:///a\"\x7d\x7d")
      (Bytes.ascii ("\x7b\"identifier\":\x7b\"a\":[]\x7d,\"textDocument\":" ++
        "\x7b\"uri\":\"file:///a\",\"x\":-0\x7d,\"identifier\":\"b\"\x7d")) := by
  have plain := named_ascii "" "textDocument" "" "" "\x7b\"uri\":\"file:///a\"\x7d" (by decide +kernel)
    (by decide +kernel) (Json.derives_of_skipValue rfl (by decide +kernel))
  have crowded := named_ascii "" "textDocument" "" "" "\x7b\"uri\":\"file:///a\",\"x\":-0\x7d" (by decide +kernel)
    (by decide +kernel) (Json.derives_of_skipValue rfl (by decide +kernel))
  have front := named_ascii "" "identifier" "" "" "\x7b\"a\":[]\x7d" (by decide +kernel) (by decide +kernel)
    (Json.derives_of_skipValue rfl (by decide +kernel))
  have back := named_ascii "" "identifier" "" "" "\"b\"" (by decide +kernel) (by decide +kernel)
    (Json.derives_of_skipValue rfl (by decide +kernel))
  have varied : ParamsVariant _ _ :=
    .object (.first plain (.closing Json.blanks_nil))
      (.first front (.comma Json.blanks_nil crowded (.comma Json.blanks_nil back (.closing Json.blanks_nil))))
      (.inserted (by decide) (.member crowded_document (.inserted (by decide) .done)))
  exact (congrArg₂ ParamsVariant (by decide +kernel) (by decide +kernel)).mp varied

/-- The crowded request is a variant of the plain one: its members are turned around, members have come in
between, and blanks stand around tokens. -/
theorem crowded_request : Variant plainRequest crowdedRequest := by
  have idValue : Derives .value (Bytes.ascii "3") := Json.derives_of_skipValue rfl (by decide +kernel)
  have methodValue : Derives .value (Bytes.ascii "\"m\"") := Json.derives_of_skipValue rfl (by decide +kernel)
  have id := named_ascii "" "id" "" "" "3" (by decide +kernel) (by decide +kernel) idValue
  have spaced := named_ascii "" "id" "" " " "3" (by decide +kernel) (by decide +kernel) idValue
  have method := named_ascii "" "method" "" "" "\"m\"" (by decide +kernel) (by decide +kernel) methodValue
  have broken := named_ascii "\n" "method" "" "" "\"m\"" (by decide +kernel) (by decide +kernel) methodValue
  have plain := named_ascii "" "params" "" "" "\x7b\"textDocument\":\x7b\"uri\":\"file:///a\"\x7d\x7d"
    (by decide +kernel) (by decide +kernel) (Json.derives_of_skipValue rfl (by decide +kernel))
  have crowded := named_ascii "" "params" " " "" ("\x7b\"identifier\":\x7b\"a\":[]\x7d,\"textDocument\":" ++
      "\x7b\"uri\":\"file:///a\",\"x\":-0\x7d,\"identifier\":\"b\"\x7d")
    (by decide +kernel) (by decide +kernel) (Json.derives_of_skipValue rfl (by decide +kernel))
  have front := named_ascii "" "previousResultId" "" "" "[1e999]" (by decide +kernel) (by decide +kernel)
    (Json.derives_of_skipValue rfl (by decide +kernel))
  have back := named_ascii "" "previousResultId" "" "" "\x7b\x7d" (by decide +kernel) (by decide +kernel)
    (Json.derives_of_skipValue rfl (by decide +kernel))
  have none := Json.blanks_nil
  have varied : RequestVariant _ _ :=
    .object (.first id (.comma none method (.comma none plain (.closing none))))
      (.first front (.comma none crowded (.comma none broken (.comma none back (.comma none spaced
        (.closing none))))))
      (.permuted (List.reverse_perm _).symm (.inserted (by decide) (.member crowded_params
        (.member methodValue.respaced (.inserted (by decide) (.member idValue.respaced .done))))))
  have blank : Blanks (Bytes.ascii " ") := by decide +kernel
  have newline : Blanks (Bytes.ascii "\n") := by decide +kernel
  exact (congrArg₂ Variant (by decide +kernel) (by decide +kernel)).mp (.whole none blank varied none newline)

/-- Both are widened alike. -/
theorem crowded_request_widened :
    Variant plainRequest crowdedRequest ∧ ∃ text, (expand oneDocument plainRequest).value = .ok text ∧
      (expand oneDocument crowdedRequest).value = .ok text := by
  have parsed : parse DiagnosticRequest.read plainRequest =
      .ok ⟨usualVersion, .number 3, "m", { textDocument := ⟨"file:///a"⟩ }⟩ := by
    decide +kernel
  have located : documentPath "file:///a" = .ok (Bytes.ascii "/a") := by decide +kernel
  have read : oneDocument.read (Bytes.ascii "/a") = .ok (Bytes.ascii "one\ntwo") := by cbv
  have widened := expand_eq_ok_iff.mpr ⟨_, _, _, parsed, located, read, rfl⟩
  exact ⟨crowded_request, _, widened,
    variants_widened_alike oneDocument plainRequest crowdedRequest _ crowded_request widened⟩

end LspProxy.Message
