import LspProxy.Proofs.Json.Numbers
import LspProxy.Proofs.Json.Records

/-!
# Written records

A value is read back if its reader finds it in its written form and leaves exactly what stands behind it
(`ReadsBack`). Behind a value of a record stands a comma or a bracket, so nothing is asked of what goes on
with a number.

An object written of members is read back if each member is: `Fills` says what the members make of what
has been read so far, one after the other, and a record follows it (`readRecord_printObject`). So a record
is read back by one lemma for each of its values, records among them.
-/
namespace LspProxy.Json

/-- The value is read back from its text, whatever stands behind. -/
def ReadsBack {α : Type} (read : Bytes → Except Fault (α × Bytes)) (text : List Char) (value : α) :
    Prop :=
  ∀ rest, EndsNumber rest → read (Text.Utf8.encode text ++ rest) = .ok (value, rest)

/-- A written text is read back. -/
theorem readsBack_quote (text : String) : ReadsBack readText (quote text) text :=
  fun rest _ => readText_quote text rest

/-- What is made of a value that is read back. -/
theorem ReadsBack.map {α β : Type} {read : Bytes → Except Fault (α × Bytes)} {text : List Char}
    {value : α} (back : ReadsBack read text value) (make : α → β) :
    ReadsBack (fun input => do
      let (value, rest) ← read input
      return (make value, rest)) text (make value) := by
  intro rest ends
  dsimp only
  rw [back rest ends]
  rfl

/-- A value that does not begin as `null` does is read back where it is optional. -/
theorem ReadsBack.optional {α : Type} {read : Bytes → Except Fault (α × Bytes)} {text : List Char}
    {value : α} {b : UInt8} {others : Bytes} (back : ReadsBack read text value)
    (begins : Text.Utf8.encode text = b :: others) (solid : isSpace b = false) (other : b ≠ 0x6E) :
    ReadsBack (readOptional read) text (some value) := by
  intro rest ends
  have found := back rest ends
  rw [begins, List.cons_append] at found ⊢
  unfold readOptional
  rw [skipSpace_of_solid solid]
  split
  · rename_i same
    exact absurd (List.cons.inj same).1 other
  · rw [found]
    rfl

/-! ## The text of an object -/

/-- The octets of a member. -/
def memberText (member : String × List Char) : Bytes :=
  Text.Utf8.encode (quote member.1) ++ 0x3A :: Text.Utf8.encode member.2

/-- The octets of the members behind the first one. -/
def laterText (members : List (String × List Char)) : Bytes :=
  members.flatMap fun member => 0x2C :: memberText member

/-- The octets of the members, up to the bracket that closes the object. -/
def membersText : List (String × List Char) → Bytes
  | [] => [0x7D]
  | member :: members => memberText member ++ (laterText members ++ [0x7D])

/-- A member is written with its key first. -/
theorem encode_member (member : String × List Char) :
    Text.Utf8.encode (quote member.1 ++ ':' :: member.2) = memberText member := by
  have colon : Text.Utf8.encode (':' :: member.2) = 0x3A :: Text.Utf8.encode member.2 := rfl
  rw [Text.Utf8.encode_append, colon]
  rfl

/-- Each member but the first is written behind a comma. -/
theorem encode_members (members : List (String × List Char)) (member : String × List Char) :
    Text.Utf8.encode
        (commaSeparated ((member :: members).map fun member => quote member.1 ++ ':' :: member.2)) =
      memberText member ++ laterText members := by
  induction members generalizing member with
  | nil =>
    have alone : laterText [] = [] := rfl
    rw [alone, List.append_nil]
    exact encode_member member
  | cons next others inductionHypothesis =>
    have comma (text : List Char) : Text.Utf8.encode (',' :: text) = 0x2C :: Text.Utf8.encode text := rfl
    have split : commaSeparated ((member :: next :: others).map fun member =>
          quote member.1 ++ ':' :: member.2) =
        (quote member.1 ++ ':' :: member.2) ++
          ',' :: commaSeparated ((next :: others).map fun member =>
            quote member.1 ++ ':' :: member.2) := rfl
    have later : laterText (next :: others) = 0x2C :: (memberText next ++ laterText others) := rfl
    rw [split, Text.Utf8.encode_append, encode_member, comma, inductionHypothesis, later]

/-- An object is written between brackets. -/
theorem encode_printObject (members : List (String × List Char)) :
    Text.Utf8.encode (printObject members) = 0x7B :: membersText members := by
  have closing : Text.Utf8.encode ['}'] = [0x7D] := by decide +kernel
  have whole : Text.Utf8.encode (printObject members) =
      0x7B :: (Text.Utf8.encode
        (commaSeparated (members.map fun member => quote member.1 ++ ':' :: member.2)) ++ [0x7D]) := by
    rw [← closing, ← Text.Utf8.encode_append]
    rfl
  rw [whole]
  cases members with
  | nil => rfl
  | cons member others =>
    rw [encode_members]
    unfold membersText
    rw [List.append_assoc]

/-! ## Reading it back -/

section Records

variable {σ : Type} {fields : List (Field σ)} {depth : Nat}

/-- What the members, one after the other, make of what has been read so far: each belongs to a field
that has not been read yet, and its value is read back. -/
inductive Fills (fields : List (Field σ)) (depth : Nat) : σ → List (String × List Char) → σ → Prop
  | done (state : σ) : Fills fields depth state [] state
  | member {state next last : σ} {key : String} {text : List Char}
      {members : List (String × List Char)} {field : Field σ}
      (known : fields.find? (fun field => field.key = key) = some field)
      (unseen : field.seen state = false) (back : ReadsBack (field.read state depth) text next)
      (later : Fills fields depth next members last) :
      Fills fields depth state ((key, text) :: members) last

/-- A written member is read up to its end. -/
theorem member_memberText {state next : σ} {key : String} {text : List Char} {field : Field σ}
    (known : fields.find? (fun field => field.key = key) = some field)
    (unseen : field.seen state = false) (back : ReadsBack (field.read state depth) text next) :
    ∃ octets, memberText (key, text) = 0x22 :: octets ∧ ∀ rest, EndsNumber rest →
      Member fields depth state (octets ++ rest) next rest := by
  have opening : Text.Utf8.encode (quote key) =
      0x22 :: Text.Utf8.encode (key.toList.flatMap escape ++ ['"']) := rfl
  refine ⟨Text.Utf8.encode (key.toList.flatMap escape ++ ['"']) ++ 0x3A :: Text.Utf8.encode text, ?_, ?_⟩
  · unfold memberText
    rw [opening, List.cons_append]
  · intro rest ends
    have quoted := readText_quote key (0x3A :: (Text.Utf8.encode text ++ rest))
    rw [opening, List.cons_append] at quoted
    change readString _ = _ at quoted
    rw [List.append_assoc, List.cons_append]
    exact .known quoted known unseen rfl (back rest ends)

/-- Nothing goes on with a number behind a value of an object. -/
theorem endsNumber_laterText (members : List (String × List Char)) (rest : Bytes) :
    EndsNumber (laterText members ++ 0x7D :: rest) := by
  intro b first
  cases members with
  | nil =>
    obtain rfl : 0x7D = b := by simpa [laterText] using first
    decide
  | cons member others =>
    obtain rfl : 0x2C = b := by simpa [laterText] using first
    decide

/-- No field is missing where each that is required has been read. -/
theorem none_missing {state : σ}
    (complete : ∀ field ∈ fields, field.required = true → field.seen state = true) :
    fields.any (fun field => field.required && !field.seen state) = false := by
  apply List.any_eq_false.mpr
  intro field member
  simp only [Bool.and_eq_true, Bool.not_eq_true', not_and, Bool.not_eq_false]
  exact complete field member

/-- The members behind the first one. -/
theorem members_laterText {state last : σ} {members : List (String × List Char)}
    (fills : Fills fields depth state members last)
    (complete : ∀ field ∈ fields, field.required = true → field.seen last = true) (rest : Bytes)
    {steps : Nat} (enough : members.length < steps) :
    Members fields depth steps state false (laterText members ++ 0x7D :: rest) last rest := by
  induction fills generalizing steps with
  | done state =>
    obtain ⟨steps, rfl⟩ := Nat.exists_eq_add_one_of_ne_zero (Nat.ne_zero_of_lt enough)
    exact .closed rfl (none_missing complete)
  | @member state next last key text members field known unseen back later inductionHypothesis =>
    obtain ⟨steps, rfl⟩ := Nat.exists_eq_add_one_of_ne_zero (Nat.ne_zero_of_lt enough)
    obtain ⟨octets, written, member⟩ := member_memberText known unseen back
    have shape : laterText ((key, text) :: members) ++ 0x7D :: rest =
        0x2C :: 0x22 :: (octets ++ (laterText members ++ 0x7D :: rest)) := by
      have first : laterText ((key, text) :: members) =
          0x2C :: (memberText (key, text) ++ laterText members) := rfl
      rw [first, written]
      simp
    have others := inductionHypothesis complete (Nat.lt_of_succ_lt_succ enough)
    rw [shape]
    exact .member (.comma rfl) rfl (member _ (endsNumber_laterText members rest)) others

/-- Each member takes at least one byte. -/
theorem length_le_laterText (members : List (String × List Char)) :
    members.length ≤ (laterText members).length := by
  induction members with
  | nil => exact Nat.le_refl 0
  | cons member others inductionHypothesis =>
    have first : laterText (member :: others) = 0x2C :: (memberText member ++ laterText others) := rfl
    rw [first]
    simp only [List.length_cons, List.length_append]
    omega

/-- A written record is read back if its members fill it. -/
theorem readRecord_printObject {start last : σ} {members : List (String × List Char)}
    (nested : 1 < depth) (fills : Fills fields (depth - 1) start members last)
    (complete : ∀ field ∈ fields, field.required = true → field.seen last = true) :
    ReadsBack (readRecord fields start depth) (printObject members) last := by
  intro rest _
  rw [encode_printObject, List.cons_append]
  refine readRecord_eq_ok_iff.mpr ⟨nested, .inr ⟨membersText members ++ rest, rfl, ?_⟩⟩
  cases fills with
  | done => exact .closed rfl (none_missing complete)
  | @member _ next _ key text members field known unseen back later =>
    obtain ⟨octets, written, member⟩ := member_memberText known unseen back
    have shape : membersText ((key, text) :: members) ++ rest =
        0x22 :: (octets ++ (laterText members ++ 0x7D :: rest)) := by
      have first : membersText ((key, text) :: members) =
          memberText (key, text) ++ (laterText members ++ [0x7D]) := rfl
      rw [first, written]
      simp
    have enough : members.length < (membersText ((key, text) :: members) ++ rest).length := by
      have front := length_le_laterText members
      rw [shape]
      simp only [List.length_cons, List.length_append]
      omega
    have others := members_laterText later complete rest enough
    rw [shape] at others ⊢
    exact .member (.initial _) rfl (member _ (endsNumber_laterText members rest)) others

end Records

end LspProxy.Json
