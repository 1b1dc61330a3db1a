import LspProxy.Proofs.Json.Variants
import LspProxy.Proofs.Message.Bootstrap
import LspProxy.Proofs.Message.Classification

/-!
# Messages with a method

Which messages count as having a method, said of their texts: an object that names the method in exactly one of
its members (`HasMethod`), and an array of this one string (`IsLoneText`), which is read as the one field of the
record in its place. Nothing else does, so nothing else is intercepted (`only_methods_intercepted`), wherever it
mentions the two names.

What is carried along the members of an object is whether the method has been told, and what it is (`Told`): a
name that is told twice is refused.
-/
namespace LspProxy.Message

open Json (Blanks Derives Listing IsObject IsText IsLoneText NamedMember)

/-! ## The method among the members -/

/-- A value in the place of a method: a string is one, and a null stands for none. -/
inductive Answers : Bytes → Option String → Prop
  | null : Answers (0x6E :: Json.nullRest) none
  | text {name : String} {value : Bytes} (isText : IsText name value) : Answers value (some name)

/-- What the one field takes is a value in the place of a method, behind blanks. -/
theorem answers_of_methodField {state next : Option (Option String)} {depth : Nat} {input rest : Bytes}
    (taken : methodField.read state depth input = .ok (next, rest)) :
    ∃ method blanks value, next = some method ∧ Blanks blanks ∧ Answers value method ∧
      input = blanks ++ (value ++ rest) := by
  obtain ⟨⟨method, behind⟩, read, made⟩ := Json.bind_eq_ok_iff.mp taken
  obtain ⟨rfl, rfl⟩ := Prod.mk.inj (Except.ok.inj made)
  obtain ⟨blanks, isBlanks, whole⟩ := Json.exists_blanks input
  unfold Json.readOptional at read
  split at read
  · rename_i later first
    obtain ⟨behind, passed, made⟩ := Json.bind_eq_ok_iff.mp read
    obtain ⟨rfl, rfl⟩ := Prod.mk.inj (Except.ok.inj made)
    refine ⟨none, blanks, _, rfl, isBlanks, .null, ?_⟩
    rw [whole, first, Json.keyword_eq_ok_iff.mp passed, List.cons_append]
  · obtain ⟨⟨name, behind⟩, found, made⟩ := Json.bind_eq_ok_iff.mp read
    obtain ⟨rfl, rfl⟩ := Prod.mk.inj (Except.ok.inj made)
    unfold Json.readText at found
    split at found
    · rename_i string first
      obtain ⟨quoted, spells, rfl⟩ := Json.readString_spells_iff.mp found
      rw [Json.skipSpace_skipSpace] at first
      refine ⟨some name, blanks, _, rfl, isBlanks, .text ⟨quoted, spells, rfl⟩, ?_⟩
      rw [whole, first]
      simp
    · exact absurd found (by simp)

/-- Such a value is taken. -/
theorem Answers.read {value : Bytes} {method : Option String} (answers : Answers value method)
    {blanks : Bytes} (isBlanks : Blanks blanks) (state : Option (Option String)) (depth : Nat) (rest : Bytes) :
    methodField.read state depth (blanks ++ (value ++ rest)) = .ok (some method, rest) := by
  have found : Json.readOptional Json.readText (blanks ++ (value ++ rest)) = .ok (method, rest) := by
    unfold Json.readOptional
    cases answers with
    | null =>
      rw [List.cons_append, isBlanks.before (by decide)]
      exact Json.bind_eq_ok_iff.mpr ⟨rest, Json.keyword_eq_ok_iff.mpr rfl, rfl⟩
    | @text name value isText =>
      obtain ⟨quoted, spells, rfl⟩ := isText
      rw [List.cons_append, List.append_assoc, List.singleton_append, isBlanks.before (by decide)]
      exact Json.bind_eq_ok_iff.mpr ⟨(name, rest), spells.read rest, rfl⟩
  exact Json.bind_eq_ok_iff.mpr ⟨(method, rest), found, rfl⟩

/-- What a member tells of the method: its value if it has the name and none had it before, and nothing if it
has another name. -/
inductive Tells : Option (Option String) → String → Bytes → Option (Option String) → Prop
  | method {value : Bytes} {method : Option String} (answers : Answers value method) :
      Tells none methodField.key value (some method)
  | other {state : Option (Option String)} {name : String} {value : Bytes} (other : name ≠ methodField.key) :
      Tells state name value state

/-- What members tell of the method, one after the other. -/
inductive Told : Option (Option String) → List (String × Bytes) → Option (Option String) → Prop
  | done (state : Option (Option String)) : Told state [] state
  | member {state next last : Option (Option String)} {name : String} {value : Bytes}
      {others : List (String × Bytes)} (tells : Tells state name value next) (told : Told next others last) :
      Told state ((name, value) :: others) last

/-- The key of the one field is found under no other name. -/
theorem find?_methodField (name : String) :
    [methodField].find? (fun field => field.key = name) =
      if name = methodField.key then some methodField else none := by
  by_cases same : name = methodField.key
  · rw [if_pos same, List.find?_cons_of_pos (by simp [same])]
  · rw [if_neg same, List.find?_cons_of_neg (by simpa using Ne.symm same), List.find?_nil]

theorem independent_method : Json.Independent [methodField] := by
  apply Json.independent_single
  · intro field member state next depth input rest taken
    obtain rfl := List.mem_singleton.mp member
    obtain ⟨⟨method, behind⟩, found, made⟩ := Json.bind_eq_ok_iff.mp taken
    obtain ⟨-, rfl⟩ := Prod.mk.inj (Except.ok.inj made)
    exact Json.passes_readOptional Json.passes_readText found
  · intro state depth
    exact Json.respects_readText.optional.map some
  · intro state next depth input rest taken
    obtain ⟨⟨method, behind⟩, found, made⟩ := Json.bind_eq_ok_iff.mp taken
    obtain ⟨rfl, rfl⟩ := Prod.mk.inj (Except.ok.inj made)
    rfl

section Members

variable {depth : Nat} {state next last : Option (Option String)}

/-- What a member tells of the one field it tells of the method. -/
theorem tells_methodField_iff {name : String} {value : Bytes} (isValue : Derives .value value) :
    Json.Tells [methodField] depth state name value next ↔ Tells state name value next := by
  have find := find?_methodField name
  constructor
  · intro tells
    cases tells with
    | @known field _ _ _ _ found unseen yields =>
      rw [find] at found
      split at found
      · rename_i same
        obtain rfl := Option.some.inj found
        obtain rfl : state = none := Option.isSome_eq_false_iff.mp unseen |> Option.isNone_iff_eq_none.mp
        subst same
        obtain ⟨method, blanks, answer, rfl, isBlanks, answers, whole⟩ :=
          answers_of_methodField (yields Json.blanks_nil Json.endsNumber_nil)
        rw [List.nil_append, List.append_nil, List.append_nil] at whole
        -- the value begins with no blank, so the answer is all of it
        obtain ⟨b, later, rfl, solid, -⟩ := isValue.begins
        cases blanks with
        | nil =>
          rw [whole]
          exact .method answers
        | cons c others =>
          have blank := isBlanks c List.mem_cons_self
          rw [← (List.cons.inj whole).1, solid] at blank
          exact absurd blank (by decide)
      · exact absurd found (by simp)
    | unknown found =>
      rw [find] at found
      split at found
      · exact absurd found (by simp)
      · rename_i other
        exact .other other
  · intro tells
    cases tells with
    | method answers =>
      rw [if_pos rfl] at find
      exact .known find rfl fun blanks rest isBlanks _ => answers.read isBlanks none depth rest
    | other other =>
      rw [if_neg other] at find
      exact .unknown find

/-- So do all members, one after the other. -/
theorem told_methodField_iff {members : List (String × Bytes)} (valued : Json.Valued members) :
    Json.Told [methodField] depth state members last ↔ Told state members last := by
  induction members generalizing state with
  | nil =>
    constructor
    · intro told
      cases told
      exact .done _
    · intro told
      cases told
      exact .done _
  | cons member others inductionHypothesis =>
    obtain ⟨isValue, later⟩ := List.forall_mem_cons.mp valued
    constructor
    · intro told
      cases told with
      | member tells told =>
        exact .member ((tells_methodField_iff isValue).mp tells) ((inductionHypothesis later).mp told)
    · intro told
      cases told with
      | member tells told =>
        exact .member ((tells_methodField_iff isValue).mpr tells) ((inductionHypothesis later).mpr told)

end Members

/-! ## What is told -/

/-- The members with the name of the method. -/
def methodMembers (members : List (String × Bytes)) : List (String × Bytes) :=
  members.filter fun member => member.1 = methodField.key

/-- Once the method is told, no further member may tell it. -/
theorem told_seen_iff {method : Option String} {members : List (String × Bytes)}
    {last : Option (Option String)} :
    Told (some method) members last ↔ last = some method ∧ methodMembers members = [] := by
  induction members with
  | nil =>
    constructor
    · intro told
      cases told
      exact ⟨rfl, rfl⟩
    · rintro ⟨rfl, -⟩
      exact .done _
  | cons member others inductionHypothesis =>
    obtain ⟨name, value⟩ := member
    unfold methodMembers at inductionHypothesis ⊢
    constructor
    · intro told
      cases told with
      | member tells told =>
        cases tells with
        | other other =>
          rw [List.filter_cons_of_neg (by simpa using other)]
          exact inductionHypothesis.mp told
    · rintro ⟨rfl, none⟩
      rw [List.filter_eq_nil_iff] at none
      obtain ⟨other, others⟩ := List.forall_mem_cons.mp none
      apply Told.member (.other (by simpa using other))
      exact inductionHypothesis.mpr ⟨rfl, List.filter_eq_nil_iff.mpr others⟩

/-- A method is told by exactly one of the members. -/
theorem told_iff {name : String} {members : List (String × Bytes)} :
    Told none members (some (some name)) ↔
      ∃ value, methodMembers members = [(methodField.key, value)] ∧ IsText name value := by
  induction members with
  | nil =>
    constructor
    · intro told
      cases told
    · rintro ⟨value, told, -⟩
      exact absurd told (by simp [methodMembers])
  | cons member others inductionHypothesis =>
    obtain ⟨key, value⟩ := member
    by_cases same : key = methodField.key
    · subst same
      have first : methodMembers ((methodField.key, value) :: others) =
          (methodField.key, value) :: methodMembers others :=
        List.filter_cons_of_pos (by simp)
      rw [first]
      constructor
      · intro told
        cases told with
        | member tells told =>
          cases tells with
          | method answers =>
            obtain ⟨same, none⟩ := told_seen_iff.mp told
            obtain rfl := Option.some.inj same
            cases answers with
            | text isText => exact ⟨value, by rw [none], isText⟩
          | other other => exact absurd rfl other
      · rintro ⟨value', told, isText⟩
        obtain ⟨member, none⟩ := List.cons.inj told
        obtain rfl : value = value' := (Prod.mk.inj member).2
        exact .member (.method (.text isText)) (told_seen_iff.mpr ⟨rfl, none⟩)
    · have first : methodMembers ((key, value) :: others) = methodMembers others :=
        List.filter_cons_of_neg (by simpa using same)
      rw [first]
      constructor
      · intro told
        cases told with
        | member tells told =>
          cases tells with
          | method answers => exact absurd rfl same
          | other other => exact inductionHypothesis.mp told
      · intro told
        exact .member (.other same) (inductionHypothesis.mpr told)

/-! ## Whole messages -/

/-- The message is one object, and exactly one of its members has the name of the method: its value is a
string of this text. -/
def HasMethod (name : String) (body : Bytes) : Prop :=
  ∃ members value, IsObject members body ∧ methodMembers members = [(methodField.key, value)] ∧
    IsText name value

/-- Only blanks are left at the end of a message. -/
theorem finish_eq_ok_iff {α : Type} {value result : α} {rest : Bytes} :
    Json.finish (value, rest) = .ok result ↔ result = value ∧ Blanks rest := by
  unfold Json.finish
  dsimp only
  by_cases blanks : Blanks rest
  · rw [Json.skipSpace_eq_nil_iff.mpr blanks]
    simp [blanks, eq_comm]
  · have more : (Json.skipSpace rest).isEmpty = false := by
      rw [List.isEmpty_eq_false_iff]
      exact mt Json.skipSpace_eq_nil_iff.mp blanks
    simp [blanks, more]

/-- A message is read as its record, and only blanks are left. -/
theorem method?_eq_ok_iff {body : Bytes} {method : Option String} :
    method? body = .ok method ↔
      ∃ last rest, Json.readRecord [methodField] none Json.depthLimit body = .ok (last, rest) ∧
        method = last.join ∧ Blanks rest := by
  constructor
  · intro read
    obtain ⟨⟨found, rest⟩, read, finished⟩ := Json.bind_eq_ok_iff.mp read
    obtain ⟨⟨last, behind⟩, record, made⟩ := Json.bind_eq_ok_iff.mp read
    obtain ⟨rfl, rfl⟩ := Prod.mk.inj (Except.ok.inj made)
    obtain ⟨rfl, blanks⟩ := finish_eq_ok_iff.mp finished
    exact ⟨last, _, record, rfl, blanks⟩
  · rintro ⟨last, rest, record, rfl, blanks⟩
    have read : readMethod Json.depthLimit body = .ok (last.join, rest) :=
      Json.bind_eq_ok_iff.mpr ⟨(last, rest), record, rfl⟩
    exact Json.bind_eq_ok_iff.mpr ⟨(last.join, rest), read, finish_eq_ok_iff.mpr ⟨rfl, blanks⟩⟩

/-- Of an array a method is read if the array holds this one string. -/
theorem elements_iff {depth : Nat} {name : String} {inner rest : Bytes} :
    Json.Elements depth [methodField] none true inner (some (some name)) rest ↔
      ∃ before value after, Blanks before ∧ IsText name value ∧ Blanks after ∧
        inner = before ++ (value ++ (after ++ 0x5D :: rest)) := by
  constructor
  · intro elements
    cases elements with
    | element ahead begins inside read others =>
      cases ahead with
      | initial =>
        cases others with
        | closed closing complete =>
          obtain ⟨before, isBefore, rfl⟩ := Json.blanks_of_skipSpace begins
          obtain ⟨after, isAfter, rfl⟩ := Json.blanks_of_skipSpace closing
          obtain ⟨method, blanks, value, same, isBlanks, answers, whole⟩ := answers_of_methodField read
          obtain rfl := Option.some.inj same
          cases answers with
          | text isText =>
            refine ⟨before ++ blanks, value, after, isBefore.append isBlanks, isText, isAfter, ?_⟩
            rw [whole, List.append_assoc]
  · rintro ⟨before, value, after, isBefore, isText, isAfter, rfl⟩
    have read := (Answers.text isText).read Json.blanks_nil none depth (after ++ 0x5D :: rest)
    obtain ⟨quoted, spells, rfl⟩ := isText
    apply Json.Elements.element (.initial _) (isBefore.before (by decide) _) (by decide) read
    exact .closed (isAfter.before (by decide) rest) rfl

/-- Of an object a method is read if exactly one of the members has its name and this string. -/
theorem members_iff {depth : Nat} {name : String} {inner rest : Bytes} :
    Json.Members [methodField] depth (inner.length + 1) none true inner (some (some name)) rest ↔
      ∃ members value text, Listing true members text ∧ methodMembers members = [(methodField.key, value)] ∧
        IsText name value ∧ inner = text ++ rest := by
  constructor
  · intro read
    obtain ⟨members, text, listing, rfl⟩ := read.exists_listing independent_method.passes
    obtain ⟨-, told, -⟩ := listing.told independent_method read
    obtain ⟨value, once, isText⟩ := told_iff.mp ((told_methodField_iff listing.valued).mp told)
    exact ⟨members, value, text, listing, once, isText, rfl⟩
  · rintro ⟨members, value, text, listing, once, isText, rfl⟩
    have told : Json.Told [methodField] depth none members (some (some name)) :=
      (told_methodField_iff listing.valued).mpr (told_iff.mpr ⟨value, once, isText⟩)
    apply listing.members told rfl
    have enough := listing.length_le
    rw [List.length_append]
    omega

/-- A method is read of exactly the messages that have it, and of the arrays of its name alone. -/
theorem method?_eq_some_iff {body : Bytes} {name : String} :
    method? body = .ok (some name) ↔ HasMethod name body ∨ IsLoneText name body := by
  rw [method?_eq_ok_iff]
  constructor
  · rintro ⟨last, rest, record, told, isRest⟩
    obtain rfl : last = some (some name) := Option.join_eq_some_iff.mp told.symm
    obtain ⟨-, ⟨inner, opening, elements⟩ | ⟨inner, opening, members⟩⟩ := Json.readRecord_eq_ok_iff.mp record
    · obtain ⟨front, isFront, rfl⟩ := Json.blanks_of_skipSpace opening
      obtain ⟨before, value, after, isBefore, isText, isAfter, rfl⟩ := elements_iff.mp elements
      exact .inr ⟨front, before, value, after, rest, isFront, isBefore, isText, isAfter, isRest, rfl⟩
    · obtain ⟨front, isFront, rfl⟩ := Json.blanks_of_skipSpace opening
      obtain ⟨named, value, text, listing, once, isText, rfl⟩ := members_iff.mp members
      exact .inl ⟨named, value, ⟨front, text, rest, isFront, listing, isRest, rfl⟩, once, isText⟩
  · have nested : 1 < Json.depthLimit := by decide
    rintro (⟨members, value, ⟨front, text, rest, isFront, listing, isRest, rfl⟩, once, isText⟩ |
      ⟨front, before, value, after, rest, isFront, isBefore, isText, isAfter, isRest, rfl⟩)
    · refine ⟨some (some name), rest, ?_, rfl, isRest⟩
      rw [Json.readRecord_eq_ok_iff]
      refine ⟨nested, .inr ⟨text ++ rest, isFront.before (by decide) _, ?_⟩⟩
      exact members_iff.mpr ⟨members, value, text, listing, once, isText, rfl⟩
    · refine ⟨some (some name), rest, ?_, rfl, isRest⟩
      rw [Json.readRecord_eq_ok_iff]
      refine ⟨nested, .inl ⟨before ++ (value ++ (after ++ 0x5D :: rest)), isFront.before (by decide) _, ?_⟩⟩
      exact elements_iff.mpr ⟨before, value, after, isBefore, isText, isAfter, rfl⟩

/-! ## What is intercepted -/

/-- The method that makes a message of this kind. -/
def Intercepted.method : Intercepted → String
  | .handshake => initializeMethod
  | .diagnostic => diagnosticMethod

/-- The raw bytes suggest this kind, or the kind that is looked for first. -/
def Intercepted.Suggested (body : Bytes) : Intercepted → Prop
  | .handshake => Bytes.ascii diagnosticMethod <:+: body ∨ Bytes.ascii initializeMethod <:+: body
  | .diagnostic => Bytes.ascii diagnosticMethod <:+: body

/-- A method is read if the reading succeeds with one. -/
theorem join_eq_some_iff {body : Bytes} {name : String} :
    (method? body).toOption.join = some name ↔ method? body = .ok (some name) := by
  cases method? body with
  | error fault => simp [Except.toOption]
  | ok method => simp [Except.toOption]

/-- A message is of a kind if its method is read and the look at the raw bytes does not hide it. -/
theorem intercepted?_eq_some_iff {body : Bytes} {kind : Intercepted} :
    intercepted? body = some kind ↔ method? body = .ok (some kind.method) ∧ kind.Suggested body := by
  have diagnosticStands : Bytes.contains (Bytes.ascii diagnosticMethod) body = true ↔
      Bytes.ascii diagnosticMethod <:+: body := contains_iff (by decide)
  have initializeStands : Bytes.contains (Bytes.ascii initializeMethod) body = true ↔
      Bytes.ascii initializeMethod <:+: body := contains_iff (by decide)
  rw [← join_eq_some_iff]
  cases method : (method? body).toOption.join with
  | none =>
    rw [intercepted?_of_none method]
    simp
  | some name =>
    rw [intercepted?_of_some method, Option.some.injEq]
    have different : diagnosticMethod ≠ initializeMethod := by decide
    cases kind with
    | diagnostic =>
      unfold Intercepted.method Intercepted.Suggested
      rw [← diagnosticStands]
      by_cases diagnostic : name = diagnosticMethod
      · simp [diagnostic]
      · simp [diagnostic]
    | handshake =>
      unfold Intercepted.method Intercepted.Suggested
      rw [← diagnosticStands, ← initializeStands]
      by_cases diagnostic : name = diagnosticMethod
      · simp [diagnostic, different]
      · by_cases handshake : name = initializeMethod
        · simp [handshake, different.symm, Decidable.or_iff_not_imp_left]
        · simp [diagnostic, handshake]

/-- Only messages with a method are intercepted, and arrays of its name alone: a message is of a kind exactly if
it is one of the two, and the look at the raw bytes does not hide it. Every other message is passed on as it came
and leaves the session as it was, whatever it mentions. -/
theorem only_methods_intercepted (body : Bytes) :
    (∀ kind, intercepted? body = some kind ↔
      (HasMethod kind.method body ∨ IsLoneText kind.method body) ∧ kind.Suggested body) ∧
    ((∀ kind : Intercepted, ¬ HasMethod kind.method body ∧ ¬ IsLoneText kind.method body) →
      ∀ disk (interceptor : Interceptor),
        (interceptor.process disk body).value = ({ forward := body }, interceptor)) := by
  have kinds (kind : Intercepted) : intercepted? body = some kind ↔
      (HasMethod kind.method body ∨ IsLoneText kind.method body) ∧ kind.Suggested body := by
    rw [intercepted?_eq_some_iff, method?_eq_some_iff]
  refine ⟨kinds, fun neither disk interceptor => ?_⟩
  have none : intercepted? body = none := by
    cases kind : intercepted? body with
    | none => rfl
    | some kind' =>
      obtain ⟨object, array⟩ := neither kind'
      exact absurd ((kinds kind').mp kind).1 (by simp [object, array])
  unfold Interceptor.process
  rw [none]
  rfl

/-- A response that mentions the handshake, as a member of its result and as a text. -/
def mentioningResponse : Bytes :=
  Bytes.ascii "\x7b\"id\":0,\"result\":\x7b\"method\":\"initialize\"\x7d,\"about\":\"initialize\"\x7d"

/-- The response is passed on. -/
theorem mentioning_response_passed_on :
    (∀ kind : Intercepted, ¬ HasMethod kind.method mentioningResponse ∧
      ¬ IsLoneText kind.method mentioningResponse) ∧
      ∀ disk (interceptor : Interceptor), (interceptor.process disk mentioningResponse).value =
        ({ forward := mentioningResponse }, interceptor) := by
  have none : method? mentioningResponse = .ok none := by decide +kernel
  have neither (kind : Intercepted) : ¬ HasMethod kind.method mentioningResponse ∧
      ¬ IsLoneText kind.method mentioningResponse := by
    rw [← not_or, ← method?_eq_some_iff, none]
    simp
  exact ⟨neither, (only_methods_intercepted mentioningResponse).2 neither⟩

/-- An array of the name of the handshake alone. -/
def loneHandshake : Bytes := Bytes.ascii "[\"initialize\"]"

/-- The array is no object and opens the session all the same. -/
theorem lone_handshake_intercepted :
    (∀ members, ¬ IsObject members loneHandshake) ∧ intercepted? loneHandshake = some .handshake ∧
      ∀ disk workspace, (({ workspace } : Interceptor).process disk loneHandshake).value =
        ({ forward := loneHandshake, inject := openingOrders workspace }, { workspace, phase := .opened }) := by
  have kind : intercepted? loneHandshake = some .handshake := by decide +kernel
  refine ⟨?_, kind, ?_⟩
  · intro members isObject
    exact absurd isObject.begins (by decide)
  · intro disk workspace
    have handshake : isHandshake loneHandshake = true := by
      unfold isHandshake
      rw [kind]
      rfl
    rw [Interceptor.process_value]
    simp [handshake, forwarded, kind]

end LspProxy.Message
