import LspProxy.Proofs.Json.Respacing

/-!
# Members of objects

The members of an object that is read tell of its fields, one after the other (`Told`), and an object is read
exactly as its members tell (`Listing.told`, `Listing.members`). So changes of an object are changes of a list
of names and values: members change places, members with names that no field has come in between, and values
are replaced by values like them (`Rewritten`). The changed list tells the same (`Rewritten.told`).

Two members that are told of one after the other are told of in the other order because each field counts for
itself (`Independent`).
-/
namespace LspProxy.Json

section Records

variable {σ : Type} {fields : List (Field σ)} {depth steps : Nat} {state next last : σ} {first : Bool}
  {known : List String} {alike : String → Bytes → Bytes → Prop}

/-- Each field counts for itself. It goes by the tokens of its value and is read past by the grammar; it has
been read after it is read and no other field is; and two fields may be read in either order. -/
structure Independent (fields : List (Field σ)) : Prop where
  passes : EachPasses fields
  respects : ∀ field ∈ fields, ∀ state depth, Respects (Respaced .value) (field.read state depth)
  seen : ∀ field ∈ fields, ∀ other ∈ fields, ∀ {state next : σ} {depth : Nat} {input rest : Bytes},
    field.read state depth input = .ok (next, rest) →
      other.seen next = (decide (other.key = field.key) || other.seen state)
  swap : ∀ field ∈ fields, ∀ other ∈ fields, field.key ≠ other.key →
    ∀ {state middle last : σ} {depth : Nat} {here behind there rest : Bytes},
      field.read state depth here = .ok (middle, behind) → other.read middle depth there = .ok (last, rest) →
        ∃ middle', other.read state depth there = .ok (middle', rest) ∧
          field.read middle' depth here = .ok (last, behind)

theorem Independent.tail {field : Field σ} (independent : Independent (field :: fields)) :
    Independent fields := by
  constructor
  · exact independent.passes.tail
  · intro f member
    exact independent.respects f (List.mem_cons_of_mem _ member)
  · intro f member g member'
    exact independent.seen f (List.mem_cons_of_mem _ member) g (List.mem_cons_of_mem _ member')
  · intro f member g member'
    exact independent.swap f (List.mem_cons_of_mem _ member) g (List.mem_cons_of_mem _ member')

/-- A single field counts for itself once it is known that it has been read. -/
theorem independent_single {field : Field σ} (passes : EachPasses [field])
    (respects : ∀ state depth, Respects (Respaced .value) (field.read state depth))
    (seen : ∀ {state next : σ} {depth : Nat} {input rest : Bytes},
      field.read state depth input = .ok (next, rest) → field.seen next = true) : Independent [field] := by
  constructor
  · exact passes
  · intro f member
    obtain rfl := List.mem_singleton.mp member
    exact respects
  · intro f member g member' state next depth input rest read
    obtain rfl := List.mem_singleton.mp member
    obtain rfl := List.mem_singleton.mp member'
    rw [seen read, decide_eq_true rfl, Bool.true_or]
  · intro f member g member' apart
    obtain rfl := List.mem_singleton.mp member
    obtain rfl := List.mem_singleton.mp member'
    exact absurd rfl apart

/-! ## What members tell -/

/-- What a member tells of the fields: the one with its name, which has not been told of yet, reads its value,
and a member whose name is no key tells nothing. -/
inductive Tells (fields : List (Field σ)) (depth : Nat) : σ → String → Bytes → σ → Prop
  | known {field : Field σ} {name : String} {value : Bytes} {state next : σ}
      (found : fields.find? (fun field => field.key = name) = some field) (unseen : field.seen state = false)
      (yields : Yields (field.read state depth) value next) : Tells fields depth state name value next
  | unknown {name : String} {value : Bytes} {state : σ}
      (found : fields.find? (fun field => field.key = name) = none) : Tells fields depth state name value state

/-- What members tell, one after the other. -/
inductive Told (fields : List (Field σ)) (depth : Nat) : σ → List (String × Bytes) → σ → Prop
  | done (state : σ) : Told fields depth state [] state
  | member {state next last : σ} {name : String} {value : Bytes} {others : List (String × Bytes)}
      (tells : Tells fields depth state name value next) (told : Told fields depth next others last) :
      Told fields depth state ((name, value) :: others) last

/-- Every value of a list of members is one of the grammar. -/
def Valued (members : List (String × Bytes)) : Prop := ∀ member ∈ members, Derives .value member.2

theorem Listing.valued {members : List (String × Bytes)} {text : Bytes} (listing : Listing first members text) :
    Valued members := by
  have derives {name : String} {value member : Bytes} (isMember : NamedMember name value member) :
      Derives .value value := by
    obtain ⟨_, _, _, _, isValue⟩ := isMember
    exact isValue
  induction listing with
  | closing isBlanks => exact fun member absent => absurd absent (by simp)
  | first isMember _ inductionHypothesis =>
    exact List.forall_mem_cons.mpr ⟨derives isMember, inductionHypothesis⟩
  | comma isBlanks isMember _ inductionHypothesis =>
    exact List.forall_mem_cons.mpr ⟨derives isMember, inductionHypothesis⟩

/-- Two members may change places. -/
theorem Tells.swap (independent : Independent fields) {name name' : String} {value value' : Bytes}
    (isValue : Derives .value value) (isValue' : Derives .value value')
    (tells : Tells fields depth state name value next) (tells' : Tells fields depth next name' value' last) :
    ∃ middle, Tells fields depth state name' value' middle ∧ Tells fields depth middle name value last := by
  cases tells with
  | unknown found => exact ⟨last, tells', .unknown found⟩
  | @known field _ _ _ _ found unseen yields =>
    cases tells' with
    | unknown found' => exact ⟨state, .unknown found', .known found unseen yields⟩
    | @known other _ _ _ _ found' unseen' yields' =>
      have member := List.mem_of_find?_eq_some found
      have member' := List.mem_of_find?_eq_some found'
      have read := yields blanks_nil endsNumber_nil
      have read' := yields' blanks_nil endsNumber_nil
      -- a field that has been told of is not told of again
      rw [independent.seen field member other member' read, Bool.or_eq_false_iff,
        decide_eq_false_iff_not] at unseen'
      obtain ⟨different, fresh'⟩ := unseen'
      obtain ⟨middle, first', second'⟩ :=
        independent.swap field member other member' (Ne.symm different) read read'
      have fresh : field.seen middle = false := by
        rw [independent.seen other member' field member first', unseen, Bool.or_false, decide_eq_false_iff_not]
        exact Ne.symm different
      refine ⟨middle, .known found' fresh' ?_, .known found fresh ?_⟩
      · exact independent.respects other member' _ _ isValue'.respaced blanks_nil first'
      · exact independent.respects field member _ _ isValue.respaced blanks_nil second'

/-- The order of the members does not matter. -/
theorem Told.perm (independent : Independent fields) {members members' : List (String × Bytes)}
    (order : members.Perm members') (valued : Valued members) (told : Told fields depth state members last) :
    Told fields depth state members' last := by
  induction order generalizing state with
  | nil => exact told
  | cons member order inductionHypothesis =>
    cases told with
    | member tells told => exact .member tells (inductionHypothesis (List.forall_mem_cons.mp valued).2 told)
  | swap member member' others =>
    cases told with
    | member tells told =>
      cases told with
      | member tells' told =>
        obtain ⟨isValue, valued⟩ := List.forall_mem_cons.mp valued
        obtain ⟨isValue', -⟩ := List.forall_mem_cons.mp valued
        obtain ⟨middle, first, second⟩ := tells.swap independent isValue isValue' tells'
        exact .member first (.member second told)
  | trans order order' inductionHypothesis inductionHypothesis' =>
    have values : Valued _ := fun member inside => valued member (order.mem_iff.mpr inside)
    exact inductionHypothesis' values (inductionHypothesis valued told)

/-- The members of an object, changed in ways that do not matter: values are replaced by values like them,
members whose name is none of those known come in, and members change places. -/
inductive Rewritten (known : List String) (alike : String → Bytes → Bytes → Prop) :
    List (String × Bytes) → List (String × Bytes) → Prop
  | done : Rewritten known alike [] []
  | member {name : String} {value value' : Bytes} {members members' : List (String × Bytes)}
      (values : alike name value value') (others : Rewritten known alike members members') :
      Rewritten known alike ((name, value) :: members) ((name, value') :: members')
  | inserted {name : String} {value : Bytes} {members members' : List (String × Bytes)}
      (unknown : name ∉ known) (others : Rewritten known alike members members') :
      Rewritten known alike members ((name, value) :: members')
  | permuted {members middle members' : List (String × Bytes)} (order : members.Perm middle)
      (others : Rewritten known alike middle members') : Rewritten known alike members members'

/-- What a member tells is told by a value like its own. -/
theorem Tells.replace {name : String} {value value' : Bytes} (values : alike name value value')
    (respects : ∀ field ∈ fields, ∀ state depth, Respects (alike field.key) (field.read state depth))
    (tells : Tells fields depth state name value next) : Tells fields depth state name value' next := by
  cases tells with
  | unknown found => exact .unknown found
  | @known field _ _ _ _ found unseen yields =>
    obtain rfl : field.key = name := by simpa using List.find?_some found
    have member := List.mem_of_find?_eq_some found
    exact .known found unseen ((respects field member state depth).yields values yields)

/-- A name that is no key is the name of no field. -/
theorem find?_unknown {name : String} (unknown : name ∉ fields.map Field.key) :
    fields.find? (fun field => field.key = name) = none := by
  apply List.find?_eq_none.mpr
  intro field member
  simp only [decide_eq_true_eq]
  rintro rfl
  exact unknown (List.mem_map_of_mem member)

/-- Members that are changed so tell the same. -/
theorem Rewritten.told (independent : Independent fields)
    (respects : ∀ field ∈ fields, ∀ state depth, Respects (alike field.key) (field.read state depth))
    {members members' : List (String × Bytes)}
    (rewritten : Rewritten (fields.map Field.key) alike members members') (valued : Valued members)
    (told : Told fields depth state members last) : Told fields depth state members' last := by
  induction rewritten generalizing state with
  | done => exact told
  | member values _ inductionHypothesis =>
    cases told with
    | member tells told =>
      exact .member (tells.replace values respects) (inductionHypothesis (List.forall_mem_cons.mp valued).2 told)
  | inserted unknown _ inductionHypothesis =>
    exact .member (.unknown (find?_unknown unknown)) (inductionHypothesis valued told)
  | permuted order _ inductionHypothesis =>
    have values : Valued _ := fun member inside => valued member (order.mem_iff.mpr inside)
    exact inductionHypothesis values (told.perm independent order valued)

/-! ## From texts to members and back -/

variable {blanks inner later rest behind : Bytes}

/-- A record that begins with a bracket is read from its elements. -/
theorem readRecord_array_iff (isBlanks : Blanks blanks) :
    readRecord fields state depth (blanks ++ 0x5B :: inner) = .ok (last, behind) ↔
      1 < depth ∧ Elements (depth - 1) fields state true inner last behind := by
  rw [readRecord_eq_ok_iff, isBlanks.before (by decide)]
  constructor
  · rintro ⟨nested, ⟨inner', opening, elements⟩ | ⟨inner', opening, -⟩⟩
    · obtain rfl := (List.cons.inj opening).2
      exact ⟨nested, elements⟩
    · exact absurd (List.cons.inj opening).1 (by decide)
  · rintro ⟨nested, elements⟩
    exact ⟨nested, .inl ⟨inner, rfl, elements⟩⟩

/-- A record that begins with a brace is read from its members. -/
theorem readRecord_object_iff (isBlanks : Blanks blanks) :
    readRecord fields state depth (blanks ++ 0x7B :: inner) = .ok (last, behind) ↔
      1 < depth ∧ Members fields (depth - 1) (inner.length + 1) state true inner last behind := by
  rw [readRecord_eq_ok_iff, isBlanks.before (by decide)]
  constructor
  · rintro ⟨nested, ⟨inner', opening, -⟩ | ⟨inner', opening, members⟩⟩
    · exact absurd (List.cons.inj opening).1 (by decide)
    · obtain rfl := (List.cons.inj opening).2
      exact ⟨nested, members⟩
  · rintro ⟨nested, members⟩
    exact ⟨nested, .inr ⟨inner, rfl, members⟩⟩

/-- A member that is read ends where the grammar ends it. -/
theorem Member.ends {entry : Bytes} (member : Member fields depth state later next behind)
    (passes : EachPasses fields) (derives : Derives (.entry .object) entry) (ends : EndsNumber rest)
    (opening : skipSpace (entry ++ rest) = 0x22 :: later) : behind = rest :=
  derives.behind ends rfl (member.reaches passes opening [])

/-- A member that is read tells what its name and its value tell. -/
theorem NamedMember.tells {name : String} {value text : Bytes} (named : NamedMember name value text)
    (independent : Independent fields) (ends : EndsNumber rest)
    (opening : skipSpace (text ++ rest) = 0x22 :: later)
    (member : Member fields depth state later next behind) :
    behind = rest ∧ Tells fields depth state name value next := by
  obtain rfl := member.ends independent.passes named.derives ends opening
  refine ⟨rfl, ?_⟩
  obtain ⟨isBlanks, spells, isGap, isSpace, isValue⟩ := named
  rename_i blanks quoted gap space
  rw [List.append_assoc, List.cons_append, isBlanks.before (by decide)] at opening
  obtain rfl := (List.cons.inj opening).2
  have spelled := spells.read (gap ++ 0x3A :: (space ++ (value ++ behind)))
  have whole : (quoted ++ 0x22 :: (gap ++ 0x3A :: (space ++ value))) ++ behind =
      quoted ++ 0x22 :: (gap ++ 0x3A :: (space ++ (value ++ behind))) := by simp
  rw [whole] at member
  cases member with
  | known key found unseen separator read =>
    obtain ⟨rfl, rfl⟩ := Prod.mk.inj (Except.ok.inj (key.symm.trans spelled))
    rw [isGap.colon] at separator
    obtain rfl := Except.ok.inj separator
    have field := List.mem_of_find?_eq_some found
    exact .known found unseen (independent.respects _ field _ _ isValue.respaced isSpace read)
  | unknown key found separator passed =>
    obtain ⟨rfl, rfl⟩ := Prod.mk.inj (Except.ok.inj (key.symm.trans spelled))
    exact .unknown found

/-- A member is read that tells what its name and its value tell. -/
theorem NamedMember.member {name : String} {value text : Bytes} (named : NamedMember name value text)
    (tells : Tells fields depth state name value next) (ends : EndsNumber rest) :
    ∃ later, skipSpace (text ++ rest) = 0x22 :: later ∧ Member fields depth state later next rest := by
  obtain ⟨isBlanks, spells, isGap, isSpace, isValue⟩ := named
  rename_i blanks quoted gap space
  refine ⟨quoted ++ 0x22 :: (gap ++ 0x3A :: (space ++ (value ++ rest))), ?_, ?_⟩
  · rw [List.append_assoc, List.cons_append, isBlanks.before (by decide)]
    simp
  · have key := spells.read (gap ++ 0x3A :: (space ++ (value ++ rest)))
    have separator := isGap.colon (space ++ (value ++ rest))
    cases tells with
    | known found unseen yields => exact .known key found unseen separator (yields isSpace ends)
    | unknown found =>
      have passed := skipValue_entry (Derives.element isSpace isValue) ends
      rw [List.append_assoc] at passed
      exact .unknown key found separator passed

/-- Members that are read tell what is listed of them. -/
theorem Listing.told {members : List (String × Bytes)} {text : Bytes} (listing : Listing first members text)
    (independent : Independent fields)
    (read : Members fields depth steps state first (text ++ rest) last behind) :
    behind = rest ∧ Told fields depth state members last ∧
      fields.any (fun field => field.required && !field.seen last) = false := by
  induction listing generalizing state steps with
  | closing isBlanks =>
    rw [List.append_assoc, List.singleton_append] at read
    cases read with
    | closed closing complete =>
      rw [isBlanks.before (by decide)] at closing
      exact ⟨(List.cons.inj closing).2.symm, .done _, complete⟩
    | member ahead opening member others =>
      cases ahead with
      | initial =>
        rw [isBlanks.before (by decide)] at opening
        exact absurd (List.cons.inj opening).1 (by decide)
      | comma comma =>
        rw [isBlanks.before (by decide)] at comma
        exact absurd (List.cons.inj comma).1 (by decide)
  | @first name value text more _ named listing inductionHypothesis =>
    rw [List.append_assoc] at read
    cases read with
    | closed closing complete => exact absurd closing (named.derives.inside _ _)
    | member ahead opening member others =>
      cases ahead
      obtain ⟨rfl, tells⟩ := named.tells independent ((listing.derives rfl).endsNumber rest) opening member
      obtain ⟨rfl, told, complete⟩ := inductionHypothesis others
      exact ⟨rfl, .member tells told, complete⟩
  | comma isBlanks named listing inductionHypothesis =>
    rw [List.append_assoc, List.cons_append, List.append_assoc] at read
    cases read with
    | closed closing complete =>
      rw [isBlanks.before (by decide)] at closing
      exact absurd (List.cons.inj closing).1 (by decide)
    | member ahead opening member others =>
      cases ahead with
      | comma comma =>
        rw [isBlanks.before (by decide)] at comma
        obtain ⟨-, rfl⟩ := List.cons.inj comma
        obtain ⟨rfl, tells⟩ := named.tells independent ((listing.derives rfl).endsNumber rest) opening member
        obtain ⟨rfl, told, complete⟩ := inductionHypothesis others
        exact ⟨rfl, .member tells told, complete⟩

/-- Members that are listed are read, in more steps than there are members. -/
theorem Listing.members {members : List (String × Bytes)} {text : Bytes} (listing : Listing first members text)
    (told : Told fields depth state members last)
    (complete : fields.any (fun field => field.required && !field.seen last) = false)
    (enough : members.length < steps) :
    Members fields depth steps state first (text ++ rest) last rest := by
  induction listing generalizing state steps with
  | closing isBlanks =>
    obtain ⟨steps, rfl⟩ := Nat.exists_eq_succ_of_ne_zero (Nat.ne_of_gt enough)
    cases told
    apply Members.closed _ complete
    rw [List.append_assoc, List.singleton_append, isBlanks.before (by decide)]
  | first named listing inductionHypothesis =>
    obtain ⟨steps, rfl⟩ := Nat.exists_eq_succ_of_ne_zero (Nat.ne_zero_of_lt enough)
    cases told with
    | member tells told =>
      have others := inductionHypothesis told (Nat.lt_of_succ_lt_succ enough)
      obtain ⟨behind, opening, member⟩ := named.member tells ((listing.derives rfl).endsNumber rest)
      rw [List.append_assoc]
      exact .member (.initial _) opening member others
  | comma isBlanks named listing inductionHypothesis =>
    obtain ⟨steps, rfl⟩ := Nat.exists_eq_succ_of_ne_zero (Nat.ne_zero_of_lt enough)
    cases told with
    | member tells told =>
      have others := inductionHypothesis told (Nat.lt_of_succ_lt_succ enough)
      obtain ⟨behind, opening, member⟩ := named.member tells ((listing.derives rfl).endsNumber rest)
      rw [List.append_assoc, List.cons_append, List.append_assoc]
      exact .member (.comma (isBlanks.before (by decide) _)) opening member others

/-- A record is read alike from objects whose members are changed so. -/
theorem readRecord_rewritten (independent : Independent fields)
    {members members' : List (String × Bytes)} {text text' : Bytes} (listing : Listing true members text)
    (listing' : Listing true members' text')
    (rewritten : Rewritten (fields.map Field.key) alike members members')
    (respects : ∀ field ∈ fields, ∀ state depth, Respects (alike field.key) (field.read state depth))
    (isBlanks : Blanks blanks)
    (read : readRecord fields state depth (blanks ++ 0x7B :: (text ++ rest)) = .ok (last, behind)) :
    Yields (readRecord fields state depth) (0x7B :: text') last := by
  obtain ⟨nested, read⟩ := (readRecord_object_iff isBlanks).mp read
  obtain ⟨-, told, complete⟩ := listing.told independent read
  have told' := rewritten.told independent respects listing.valued told
  intro blanks' rest' isBlanks' _
  have enough : members'.length < (text' ++ rest').length + 1 := by
    have each := listing'.length_le
    rw [List.length_append]
    omega
  exact (readRecord_object_iff isBlanks').mpr ⟨nested, listing'.members told' complete enough⟩

end Records

end LspProxy.Json
