import LspProxy.Json.Record

/-!
# How a record is read

What it takes for a record to be read, one step after the other: the elements of an array (`Elements`),
one member of an object (`Member`) and the members of an object (`Members`). The readers succeed exactly
where such steps lead to the end of the record (`readRecord_eq_ok_iff`), so what is proved of records that
are read is proved by induction on the steps.
-/
namespace LspProxy.Json

/-- A reader and what is done with its result. -/
theorem bind_eq_ok_iff {α β : Type} {read : Except Fault α} {next : α → Except Fault β} {result : β} :
    (read >>= next) = .ok result ↔ ∃ found, read = .ok found ∧ next found = .ok result := by
  cases read with
  | error fault => simp [bind, Except.bind]
  | ok found => simp [bind, Except.bind]

variable {σ : Type} {fields : List (Field σ)} {depth steps : Nat} {state next last : σ} {first : Bool}
  {input rest : Bytes}

/-- Where the next entry is looked for: at once if it is the first one, and behind a comma if not. -/
inductive Ahead : Bool → Bytes → Bytes → Prop
  | initial (input : Bytes) : Ahead true input input
  | comma {input rest : Bytes} (comma : skipSpace input = 0x2C :: rest) : Ahead false input rest

/-! ## Arrays -/

/-- The elements of an array are read up to its end: from what has been read to the last of it, and from a
text to what it leaves. -/
inductive Elements (depth : Nat) : List (Field σ) → σ → Bool → Bytes → σ → Bytes → Prop
  | closed {fields : List (Field σ)} {state : σ} {first : Bool} {input rest : Bytes}
      (closing : skipSpace input = 0x5D :: rest) (complete : fields.any (·.required) = false) :
      Elements depth fields state first input state rest
  | element {field : Field σ} {fields : List (Field σ)} {state next last : σ} {first : Bool} {b : UInt8}
      {input here later behind rest : Bytes} (ahead : Ahead first input here)
      (begins : skipSpace here = b :: later) (inside : b ≠ 0x5D)
      (value : field.read state depth (b :: later) = .ok (next, behind))
      (others : Elements depth fields next false behind last rest) :
      Elements depth (field :: fields) state first input last rest

theorem elements_of_readElements
    (read : readElements depth fields state first input = .ok (last, rest)) :
    Elements depth fields state first input last rest := by
  induction fields generalizing state first input with
  | nil =>
    unfold readElements at read
    split at read
    · exact absurd read (by simp)
    · rename_i closing
      obtain ⟨rfl, rfl⟩ := Prod.mk.inj (Except.ok.inj read)
      exact .closed closing rfl
    · exact absurd read (by simp)
  | cons field others inductionHypothesis =>
    unfold readElements at read
    split at read
    · exact absurd read (by simp)
    · rename_i closing
      split at read
      · exact absurd read (by simp)
      · rename_i complete
        obtain ⟨rfl, rfl⟩ := Prod.mk.inj (Except.ok.inj read)
        exact .closed closing (Bool.eq_false_iff.mpr complete)
    · rename_i b later inside begins
      split at read
      · rename_i initial
        obtain ⟨⟨next, behind⟩, value, read⟩ := bind_eq_ok_iff.mp read
        subst initial
        exact .element (.initial input) begins inside value (inductionHypothesis read)
      split at read
      · rename_i initial comma
        obtain rfl := Bool.eq_false_iff.mpr initial
        rw [comma] at begins
        split at read
        · exact absurd read (by simp)
        · exact absurd read (by simp)
        · rename_i solid open_
          obtain ⟨⟨next, behind⟩, value, read⟩ := bind_eq_ok_iff.mp read
          obtain ⟨b, after, found⟩ := List.exists_cons_of_ne_nil solid
          rw [found] at value
          apply Elements.element (.comma begins) found _ value (inductionHypothesis read)
          rintro rfl
          exact open_ after found
      · exact absurd read (by simp)

theorem Elements.read (elements : Elements depth fields state first input last rest) :
    readElements depth fields state first input = .ok (last, rest) := by
  induction elements with
  | @closed fields state first input rest closing complete =>
    cases fields with
    | nil =>
      unfold readElements
      simp only [closing]
    | cons field others =>
      unfold readElements
      simp only [closing, complete]
      rfl
  | element ahead begins inside value others inductionHypothesis =>
    unfold readElements
    cases ahead with
    | initial =>
      split
      · rename_i empty
        exact absurd (begins.symm.trans empty) (by simp)
      · rename_i closing
        exact absurd (List.cons.inj (begins.symm.trans closing)).1 inside
      · rename_i same
        obtain ⟨rfl, rfl⟩ := List.cons.inj (begins.symm.trans same)
        rw [if_pos rfl]
        exact bind_eq_ok_iff.mpr ⟨_, value, inductionHypothesis⟩
    | comma comma =>
      simp only [comma, Bool.false_eq_true, if_false]
      change (if (0x2C : UInt8) = 0x2C then _ else _) = _
      rw [if_pos rfl]
      split
      · rename_i empty
        exact absurd (begins.symm.trans empty) (by simp)
      · rename_i closing
        exact absurd (List.cons.inj (begins.symm.trans closing)).1 inside
      · rw [begins]
        exact bind_eq_ok_iff.mpr ⟨_, value, inductionHypothesis⟩

/-! ## Objects -/

/-- A member whose opening quote has been read is read up to its end: by the field with its key, which has
not been read yet, or past a value that nobody looks at. -/
inductive Member (fields : List (Field σ)) (depth : Nat) : σ → Bytes → σ → Bytes → Prop
  | known {field : Field σ} {key : String} {state next : σ} {input behind value rest : Bytes}
      (name : readString input = .ok (key, behind))
      (found : fields.find? (fun field => field.key = key) = some field)
      (unseen : field.seen state = false) (separator : colon behind = .ok value)
      (read : field.read state depth value = .ok (next, rest)) : Member fields depth state input next rest
  | unknown {key : String} {state : σ} {input behind value rest : Bytes}
      (name : readString input = .ok (key, behind))
      (found : fields.find? (fun field => field.key = key) = none)
      (separator : colon behind = .ok value) (passed : skipValue value = .ok rest) :
      Member fields depth state input state rest

theorem member_of_readMember (read : readMember fields depth state input = .ok (next, rest)) :
    Member fields depth state input next rest := by
  unfold readMember at read
  obtain ⟨⟨key, behind⟩, name, read⟩ := bind_eq_ok_iff.mp read
  dsimp only at read
  split at read
  · rename_i field found
    split at read
    · exact absurd read (by simp)
    · rename_i unseen
      obtain ⟨value, separator, read⟩ := bind_eq_ok_iff.mp read
      exact .known name found (Bool.eq_false_iff.mpr unseen) separator read
  · rename_i found
    obtain ⟨value, separator, read⟩ := bind_eq_ok_iff.mp read
    obtain ⟨after, passed, made⟩ := bind_eq_ok_iff.mp read
    obtain ⟨rfl, rfl⟩ := Prod.mk.inj (Except.ok.inj made)
    exact .unknown name found separator passed

theorem Member.read (member : Member fields depth state input next rest) :
    readMember fields depth state input = .ok (next, rest) := by
  unfold readMember
  cases member with
  | known name found unseen separator read =>
    simp only [name, found, unseen, separator, bind, Except.bind]
    exact read
  | unknown name found separator passed =>
    simp only [name, found, separator, passed, bind, Except.bind]
    rfl

/-- The members of an object are read up to its end, in at most so many steps. -/
inductive Members (fields : List (Field σ)) (depth : Nat) :
    Nat → σ → Bool → Bytes → σ → Bytes → Prop
  | closed {steps : Nat} {state : σ} {first : Bool} {input rest : Bytes}
      (closing : skipSpace input = 0x7D :: rest)
      (complete : fields.any (fun field => field.required && !field.seen state) = false) :
      Members fields depth (steps + 1) state first input state rest
  | member {steps : Nat} {state next last : σ} {first : Bool} {input here later behind rest : Bytes}
      (ahead : Ahead first input here) (opening : skipSpace here = 0x22 :: later)
      (member : Member fields depth state later next behind)
      (others : Members fields depth steps next false behind last rest) :
      Members fields depth (steps + 1) state first input last rest

theorem members_of_readMembers
    (read : readMembers fields depth steps state first input = .ok (last, rest)) :
    Members fields depth steps state first input last rest := by
  induction steps generalizing state first input with
  | zero => exact absurd read (by simp [readMembers])
  | succ steps inductionHypothesis =>
    unfold readMembers at read
    split at read
    · exact absurd read (by simp)
    · rename_i closing
      split at read
      · exact absurd read (by simp)
      · rename_i complete
        obtain ⟨rfl, rfl⟩ := Prod.mk.inj (Except.ok.inj read)
        exact .closed closing (Bool.eq_false_iff.mpr complete)
    · rename_i b later open_ begins
      split at read
      · rename_i initial
        subst initial
        split at read
        · rename_i quote
          obtain ⟨⟨next, behind⟩, member, read⟩ := bind_eq_ok_iff.mp read
          rw [quote] at begins
          exact .member (.initial input) begins (member_of_readMember member) (inductionHypothesis read)
        · exact absurd read (by simp)
      split at read
      · rename_i initial comma
        obtain rfl := Bool.eq_false_iff.mpr initial
        rw [comma] at begins
        split at read
        · exact absurd read (by simp)
        · rename_i opening
          obtain ⟨⟨next, behind⟩, member, read⟩ := bind_eq_ok_iff.mp read
          exact .member (.comma begins) opening (member_of_readMember member) (inductionHypothesis read)
        · exact absurd read (by simp)
      · exact absurd read (by simp)

theorem Members.read (members : Members fields depth steps state first input last rest) :
    readMembers fields depth steps state first input = .ok (last, rest) := by
  induction members with
  | closed closing complete =>
    unfold readMembers
    simp only [closing, complete]
    rfl
  | member ahead opening member others inductionHypothesis =>
    unfold readMembers
    cases ahead with
    | initial =>
      simp only [opening]
      exact bind_eq_ok_iff.mpr ⟨_, member.read, inductionHypothesis⟩
    | comma comma =>
      simp only [comma, Bool.false_eq_true, if_false]
      change (if (0x2C : UInt8) = 0x2C then _ else _) = _
      rw [if_pos rfl]
      simp only [opening]
      exact bind_eq_ok_iff.mpr ⟨_, member.read, inductionHypothesis⟩

/-! ## Records -/

/-- A record is read as an array or as an object. -/
theorem readRecord_eq_ok_iff :
    readRecord fields state depth input = .ok (last, rest) ↔
      1 < depth ∧
        ((∃ inner, skipSpace input = 0x5B :: inner ∧
            Elements (depth - 1) fields state true inner last rest) ∨
          ∃ inner, skipSpace input = 0x7B :: inner ∧
            Members fields (depth - 1) (inner.length + 1) state true inner last rest) := by
  constructor
  · intro read
    unfold readRecord at read
    split at read
    · rename_i inner opening
      split at read
      · exact absurd read (by simp)
      · rename_i nested
        exact ⟨Nat.lt_of_not_le nested, .inl ⟨inner, opening, elements_of_readElements read⟩⟩
    · rename_i inner opening
      split at read
      · exact absurd read (by simp)
      · rename_i nested
        exact ⟨Nat.lt_of_not_le nested, .inr ⟨inner, opening, members_of_readMembers read⟩⟩
    · exact absurd read (by simp)
  · rintro ⟨nested, ⟨inner, opening, elements⟩ | ⟨inner, opening, members⟩⟩
    · unfold readRecord
      simp only [opening, if_neg (Nat.not_le_of_lt nested)]
      exact elements.read
    · unfold readRecord
      simp only [opening, if_neg (Nat.not_le_of_lt nested)]
      exact members.read

end LspProxy.Json
