import LspProxy.Proofs.Json.Passing

/-!
# Where the values of a record stand

To say what has become of a value of a record one has to say which value it was. For this the same record
is read with fields that only note where their values stand (`place?`); what the values are plays no part
in it, so the places are known even of a record that is refused for one of its values.

What has been read of a record and the places noted of it develop side by side (`Tracks`): a relation that
every field keeps holds at the end of the record (`readRecord_places`).
-/
namespace LspProxy.Json

/-- Keys with the places of their values: the text from the value on. -/
abbrev Places := List (String × Bytes)

/-- The field of which only the place of the value is noted. -/
def Field.place {σ : Type} (field : Field σ) : Field Places :=
  ⟨field.key, field.required, fun places => (places.lookup field.key).isSome, fun places _ input => do
    let rest ← skipValue input
    return ((field.key, input) :: places, rest)⟩

/-- Where the value of the member with this key stands in a record: the text from there on. -/
def place? {σ : Type} (fields : List (Field σ)) (key : String) (input : Bytes) : Option Bytes :=
  match readRecord (fields.map Field.place) [] depthLimit input with
  | .ok (places, _) => places.lookup key
  | .error _ => none

section Records

variable {σ : Type} {R : σ → Places → Prop} {fields : List (Field σ)} {depth limit : Nat}

/-- What is read and the places noted of it stay in a relation, in which the fields that have been read
are those whose places are known. -/
structure Tracks (R : σ → Places → Prop) (fields : List (Field σ)) : Prop where
  passes : EachPasses fields
  seen : ∀ field ∈ fields, ∀ {state : σ} {places : Places}, R state places →
    field.seen state = (places.lookup field.key).isSome
  read : ∀ field ∈ fields, ∀ {state next : σ} {places : Places} {depth : Nat} {input rest : Bytes},
    R state places → field.read state depth input = .ok (next, rest) →
      R next ((field.key, input) :: places)

/-- The place of a value that is read is noted. -/
theorem Tracks.place (tracks : Tracks R fields) {field : Field σ} (member : field ∈ fields)
    {state next : σ} {places : Places} {input rest : Bytes} (related : R state places)
    (read : field.read state depth input = .ok (next, rest)) :
    ∃ noted, field.place.read places limit input = .ok (noted, rest) ∧ R next noted := by
  refine ⟨(field.key, input) :: places, ?_, tracks.read field member related read⟩
  apply bind_eq_ok_iff.mpr
  exact ⟨rest, (tracks.passes field member read).skipValue, rfl⟩

theorem any_required_place (fields : List (Field σ)) :
    (fields.map Field.place).any (·.required) = fields.any (·.required) := by
  rw [List.any_map]
  rfl

theorem Tracks.tail {field : Field σ} (tracks : Tracks R (field :: fields)) : Tracks R fields := by
  constructor
  · exact tracks.passes.tail
  · exact fun f member => tracks.seen f (List.mem_cons_of_mem _ member)
  · exact fun f member => tracks.read f (List.mem_cons_of_mem _ member)

theorem Elements.places {state last : σ} {first : Bool} {input rest : Bytes}
    (elements : Elements depth fields state first input last rest) (tracks : Tracks R fields)
    {places : Places} (related : R state places) :
    ∃ noted, Elements limit (fields.map Field.place) places first input noted rest ∧ R last noted := by
  induction elements generalizing places with
  | @closed fields state first input rest closing complete =>
    exact ⟨places, .closed closing ((any_required_place fields).trans complete), related⟩
  | element ahead begins solid value _ inductionHypothesis =>
    obtain ⟨middle, noted, kept⟩ := tracks.place List.mem_cons_self related value
    obtain ⟨final, others, done⟩ := inductionHypothesis tracks.tail kept
    exact ⟨final, .element ahead begins solid noted others, done⟩

theorem Member.places {state last : σ} {input rest : Bytes}
    (member : Member fields depth state input last rest) (tracks : Tracks R fields)
    {places : Places} (related : R state places) :
    ∃ noted, Member (fields.map Field.place) limit places input noted rest ∧ R last noted := by
  have look (key : String) : (fields.map Field.place).find? (fun field => field.key = key) =
      (fields.find? fun field => field.key = key).map Field.place := by
    rw [List.find?_map]
    rfl
  cases member with
  | @known field key _ _ _ behind value _ name found unseen separator read =>
    have member := List.mem_of_find?_eq_some found
    obtain ⟨noted, place, kept⟩ := tracks.place member related read
    have fresh : field.place.seen places = false := (tracks.seen field member related).symm.trans unseen
    refine ⟨noted, .known name ?_ fresh separator place, kept⟩
    rw [look, found, Option.map_some]
  | @unknown key _ _ behind value _ name found separator passed =>
    refine ⟨places, .unknown name ?_ separator passed, related⟩
    rw [look, found, Option.map_none]

theorem Members.places {steps : Nat} {state last : σ} {first : Bool} {input rest : Bytes}
    (members : Members fields depth steps state first input last rest) (tracks : Tracks R fields)
    {places : Places} (related : R state places) :
    ∃ noted, Members (fields.map Field.place) limit steps places first input noted rest ∧
      R last noted := by
  induction members generalizing places with
  | @closed steps state first input rest closing complete =>
    refine ⟨places, .closed closing ?_, related⟩
    rw [← complete, List.any_map, Bool.eq_iff_iff, List.any_eq_true, List.any_eq_true]
    apply exists_congr
    intro field
    apply and_congr_right
    intro member
    rw [tracks.seen field member related]
    rfl
  | member ahead opening member _ inductionHypothesis =>
    obtain ⟨middle, noted, kept⟩ := member.places tracks related
    obtain ⟨final, others, done⟩ := inductionHypothesis kept
    exact ⟨final, .member ahead opening noted others, done⟩

/-- The places of a record that is read are noted, however few brackets may be open. -/
theorem readRecord_places (tracks : Tracks R fields) {state last : σ} {places : Places}
    {input rest : Bytes} (nested : 1 < limit) (related : R state places)
    (read : readRecord fields state depth input = .ok (last, rest)) :
    ∃ noted, readRecord (fields.map Field.place) places limit input = .ok (noted, rest) ∧
      R last noted := by
  obtain ⟨-, ⟨inner, opening, elements⟩ | ⟨inner, opening, members⟩⟩ := readRecord_eq_ok_iff.mp read
  · obtain ⟨final, noted, kept⟩ := elements.places tracks related
    exact ⟨final, readRecord_eq_ok_iff.mpr ⟨nested, .inl ⟨inner, opening, noted⟩⟩, kept⟩
  · obtain ⟨final, noted, kept⟩ := members.places tracks related
    exact ⟨final, readRecord_eq_ok_iff.mpr ⟨nested, .inr ⟨inner, opening, noted⟩⟩, kept⟩

end Records

end LspProxy.Json
