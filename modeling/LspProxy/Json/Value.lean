import LspProxy.Json.Lexeme

/-!
# Passing over whole values

Arrays and objects nest without bound, so a value is passed over with the list of the brackets
still open (`walk`): a comma or a closing bracket is judged by the innermost of them. How strings and
numbers are checked, and how deep brackets may be, depends on whether the value is kept
(`Manner`).

Each step but the last takes at least one byte, so as many steps as there are bytes, and one,
suffice.
-/
namespace LspProxy.Json

/-- A bracket still open. -/
inductive Bracket where
  | array
  | object
  deriving Repr, DecidableEq

/-- What may come next. -/
inductive Expected where
  | value
  | key
  | separator
  deriving Repr, DecidableEq

/-- How the parts of a value are checked. -/
structure Manner where
  string : Bytes → Except Fault Bytes
  number : Bool → Bytes → Except Fault Bytes
  /-- The brackets that may be open at once, if there is a bound. -/
  depth : Option Nat

/-- Ignored values: outlines only, to any depth. -/
def ignoring : Manner := ⟨skipString, fun _ => skipNumber, none⟩

/-- Kept values: checked in full, with fewer than `depth` brackets open at once. -/
def keeping (depth : Nat) : Manner :=
  ⟨fun input => (readString input).map Prod.snd,
   fun negative input => (readNumber negative input).map Prod.snd,
   some (depth - 1)⟩

/-- Whether another bracket may be opened. -/
def Manner.admits (manner : Manner) (opened : List Bracket) : Bool :=
  match manner.depth with
  | none => true
  | some depth => opened.length < depth

/-- Go on from inside the open brackets to the end of the outermost value. -/
def walk (manner : Manner) : Nat → Expected → List Bracket → Bytes → Except Fault Bytes
  | 0, _, _, _ => .error .truncated
  | steps + 1, .separator, opened, input =>
    match opened with
    | [] => .ok input
    | bracket :: outer =>
      match bracket, skipSpace input with
      | _, [] => .error .truncated
      | .array, 0x2C :: rest => walk manner steps .value opened rest
      | .array, 0x5D :: rest => walk manner steps .separator outer rest
      | .object, 0x2C :: rest => walk manner steps .key opened rest
      | .object, 0x7D :: rest => walk manner steps .separator outer rest
      | _, _ => .error .malformed
  | steps + 1, .key, opened, input =>
    match skipSpace input with
    | [] => .error .truncated
    | 0x22 :: rest =>
      match manner.string rest with
      | .error fault => .error fault
      | .ok rest =>
        match skipSpace rest with
        | [] => .error .truncated
        | 0x3A :: rest => walk manner steps .value opened rest
        | _ => .error .malformed
    | _ => .error .malformed
  | steps + 1, .value, opened, input =>
    match skipSpace input with
    | [] => .error .truncated
    | 0x22 :: rest =>
      match manner.string rest with
      | .error fault => .error fault
      | .ok rest => walk manner steps .separator opened rest
    | 0x5B :: rest =>
      if manner.admits opened then
        match skipSpace rest with
        | 0x5D :: rest => walk manner steps .separator opened rest
        | rest => walk manner steps .value (.array :: opened) rest
      else .error .malformed
    | 0x7B :: rest =>
      if manner.admits opened then
        match skipSpace rest with
        | 0x7D :: rest => walk manner steps .separator opened rest
        | rest => walk manner steps .key (.object :: opened) rest
      else .error .malformed
    | b :: rest =>
      let passed :=
        if b = 0x6E then keyword nullRest rest
        else if b = 0x74 then keyword trueRest rest
        else if b = 0x66 then keyword falseRest rest
        else if b = 0x2D then manner.number true rest
        else if isDigit b then manner.number false (b :: rest)
        else .error .malformed
      match passed with
      | .error fault => .error fault
      | .ok rest => walk manner steps .separator opened rest

/-- Past one value. -/
def pass (manner : Manner) (input : Bytes) : Except Fault Bytes :=
  walk manner (input.length + 1) .value [] input

/-- Past one value that nobody looks at. -/
def skipValue (input : Bytes) : Except Fault Bytes := pass ignoring input

/-- The fault of a value that is not of the shape asked for: brackets are not looked into, anything
else must at least be well formed. -/
def mismatch (input : Bytes) : Fault :=
  let outcome : Except Fault Unit := match skipSpace input with
    | [] => .error .truncated
    | 0x22 :: rest => (readString rest).map fun _ => ()
    | 0x5B :: _ => .ok ()
    | 0x7B :: _ => .ok ()
    | b :: rest =>
      if b = 0x6E then (keyword nullRest rest).map fun _ => ()
      else if b = 0x74 then (keyword trueRest rest).map fun _ => ()
      else if b = 0x66 then (keyword falseRest rest).map fun _ => ()
      else if b = 0x2D then (readNumber true rest).map fun _ => ()
      else if isDigit b then (readNumber false (b :: rest)).map fun _ => ()
      else .error .malformed
  match outcome with
  | .ok () => .mismatched
  | .error fault => fault

/-- A text in the place of a value. -/
def readText (input : Bytes) : Except Fault (String × Bytes) :=
  match skipSpace input with
  | 0x22 :: rest => readString rest
  | other => .error (mismatch other)

/-- A natural number below `bound` in the place of a value. -/
def readNatural (bound : Nat) (input : Bytes) : Except Fault (Nat × Bytes) :=
  let bounded : Number × Bytes → Except Fault (Nat × Bytes)
    | (.integer value, rest) =>
      if 0 ≤ value ∧ value.toNat < bound then .ok (value.toNat, rest) else .error .mismatched
    | (.fractional, _) => .error .mismatched
  match skipSpace input with
  | [] => .error .truncated
  | b :: rest =>
    if b = 0x2D then readNumber true rest >>= bounded
    else if isDigit b then readNumber false (b :: rest) >>= bounded
    else .error (mismatch (b :: rest))

/-- An optional value: `null` stands for none. -/
def readOptional {α : Type} (read : Bytes → Except Fault (α × Bytes)) (input : Bytes) : Except Fault (Option α × Bytes) :=
  match skipSpace input with
  | 0x6E :: rest => do
    let rest ← keyword nullRest rest
    return (none, rest)
  | other => do
    let (value, rest) ← read other
    return (some value, rest)

/-- The end of a text: only blanks may follow its value. -/
def finish {α : Type} : α × Bytes → Except Fault α
  | (value, rest) => if (skipSpace rest).isEmpty then .ok value else .error .malformed

example : (skipValue (Bytes.ascii " [1, [[], \"\\ud800\"], 1e999] x")).toOption =
    some [0x20, 0x78] := by
  decide +kernel
example : mismatch (Bytes.ascii "tru") = .truncated := by decide

end LspProxy.Json
