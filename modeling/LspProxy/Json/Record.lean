import LspProxy.Json.Value

/-!
# Records with known fields

A record is written as an object, in which unknown keys are ignored and a known key stands at most
once, or as an array of its fields in order. A field that is not required may be missing from the
object or from the end of the array.

The fields are given as a list; what has been read so far is a value of a type `σ` of the caller,
which each field extends. `depth` is how many brackets may still be opened.
-/
namespace LspProxy.Json

/-- One field of a record. -/
structure Field (σ : Type) where
  key : String
  required : Bool
  /-- Whether the field has been read already. -/
  seen : σ → Bool
  /-- Read the field's value, with so many brackets left. -/
  read : σ → Nat → Bytes → Except Fault (σ × Bytes)

/-- The fields of a record written as an array, from the first missing one on. -/
def readElements {σ : Type} (depth : Nat) :
    List (Field σ) → σ → Bool → Bytes → Except Fault (σ × Bytes)
  | [], state, _, input =>
    match skipSpace input with
    | [] => .error .truncated
    | 0x5D :: rest => .ok (state, rest)
    | _ => .error .malformed
  | field :: fields, state, first, input =>
    match skipSpace input with
    | [] => .error .truncated
    | 0x5D :: rest =>
      if (field :: fields).any (·.required) then .error .mismatched else .ok (state, rest)
    | b :: rest =>
      if first then do
        let (state, rest) ← field.read state depth (b :: rest)
        readElements depth fields state false rest
      else if b = 0x2C then
        match skipSpace rest with
        | [] => .error .truncated
        | 0x5D :: _ => .error .malformed
        | rest => do
          let (state, rest) ← field.read state depth rest
          readElements depth fields state false rest
      else .error .malformed

/-- Past the colon between key and value. -/
def colon (input : Bytes) : Except Fault Bytes :=
  match skipSpace input with
  | [] => .error .truncated
  | 0x3A :: rest => .ok rest
  | _ => .error .malformed

/-- One member whose opening quote has been read. -/
def readMember {σ : Type} (fields : List (Field σ)) (depth : Nat) (state : σ) (input : Bytes) :
    Except Fault (σ × Bytes) := do
  let (key, rest) ← readString input
  match fields.find? (fun field => field.key = key) with
  | some field =>
    if field.seen state then .error .mismatched
    else field.read state depth (← colon rest)
  | none => return (state, ← skipValue (← colon rest))

/-- The members of an object, up to its end. Each takes at least one byte, so as many steps as there
are bytes suffice. -/
def readMembers {σ : Type} (fields : List (Field σ)) (depth : Nat) :
    Nat → σ → Bool → Bytes → Except Fault (σ × Bytes)
  | 0, _, _, _ => .error .truncated
  | steps + 1, state, first, input =>
    match skipSpace input with
    | [] => .error .truncated
    | 0x7D :: rest =>
      if fields.any (fun field => field.required && !field.seen state) then .error .mismatched
      else .ok (state, rest)
    | b :: rest =>
      if first then
        if b = 0x22 then do
          let (state, rest) ← readMember fields depth state rest
          readMembers fields depth steps state false rest
        else .error .malformed
      else if b = 0x2C then
        match skipSpace rest with
        | [] => .error .truncated
        | 0x22 :: rest => do
          let (state, rest) ← readMember fields depth state rest
          readMembers fields depth steps state false rest
        | _ => .error .malformed
      else .error .malformed

/-- A record, with so many brackets left. -/
def readRecord {σ : Type} (fields : List (Field σ)) (start : σ) (depth : Nat) (input : Bytes) :
    Except Fault (σ × Bytes) :=
  match skipSpace input with
  | 0x5B :: rest =>
    if depth ≤ 1 then .error .malformed else readElements (depth - 1) fields start true rest
  | 0x7B :: rest =>
    if depth ≤ 1 then .error .malformed
    else readMembers fields (depth - 1) (rest.length + 1) start true rest
  | other => .error (mismatch other)

/-- The brackets that may be opened in one text. -/
def depthLimit : Nat := 128

end LspProxy.Json
