import LspProxy.Rehearsal.Action
import LspProxy.Text.Decimal
import LspProxy.Text.Fields
import LspProxy.Text.Utf8

/-!
# The commands of a script

A command is a list of words, the first of which is its name. Most commands let bytes flow: some are
the source of a flow, and all that can stand behind a bar treat the flow that comes to them. The
others wait, touch files, or end the script.
-/
namespace LspProxy.Rehearsal

/-! ## Texts with escapes -/

/-- The value of an octal digit. -/
def octal? (c : Char) : Option Nat := if '0' ≤ c ∧ c ≤ '7' then some (c.toNat - 48) else none

/-- The byte of an octal number of at most so many digits, and what follows it. -/
def octalByte (value : Nat) : Nat → List Char → UInt8 × List Char
  | 0, rest => (UInt8.ofNat value, rest)
  | _ + 1, [] => (UInt8.ofNat value, [])
  | more + 1, c :: rest =>
    match octal? c with
    | some digit => octalByte (value * 8 + digit) more rest
    | none => (UInt8.ofNat value, c :: rest)

/-- The byte that a letter after a backslash stands for. -/
def escapeByte? : Char → Option UInt8
  | 'a' => some 7
  | 'b' => some 8
  | 't' => some 9
  | 'n' => some 10
  | 'v' => some 11
  | 'f' => some 12
  | 'r' => some 13
  | '\\' => some 0x5C
  | _ => none

/-- A text with its escapes replaced. An octal number has at most three digits, and after a zero
that opens it at most `zeroOpens` ones. -/
def unescape (zeroOpens : Nat) : Nat → List Char → Bytes
  | fuel + 1, '\\' :: c :: rest =>
    match escapeByte? c, octal? c with
    | some byte, _ => byte :: unescape zeroOpens fuel rest
    | none, some digit =>
      let (byte, rest) := octalByte digit (if digit = 0 then zeroOpens else 2) rest
      byte :: unescape zeroOpens fuel rest
    | none, none => Text.Utf8.encode ['\\', c] ++ unescape zeroOpens fuel rest
  | fuel + 1, c :: rest => Text.Utf8.encode [c] ++ unescape zeroOpens fuel rest
  | _, _ => []

/-- A word with its escapes replaced. -/
def unescaped (zeroOpens : Nat) (word : Bytes) : Bytes :=
  let text := Text.Utf8.lossy word
  unescape zeroOpens text.length text

/-- The part of a format before its first directive, the directive, and the rest. -/
def splitFormat : Bytes → Bytes × Option (UInt8 × Bytes)
  | 0x25 :: directive :: rest => ([], some (directive, rest))
  | b :: rest =>
    let (before, directive) := splitFormat rest
    (b :: before, directive)
  | [] => ([], none)

/-- One use of a format: what it writes, and the words that it leaves. -/
def formatOnce : Nat → Bytes → List Bytes → Bytes × List Bytes
  | 0, _, words => ([], words)
  | fuel + 1, format, words =>
    match splitFormat format with
    | (before, none) => (unescaped 2 before, words)
    | (before, some (0x25, rest)) =>
      let (written, words) := formatOnce fuel rest words
      (unescaped 2 before ++ 0x25 :: written, words)
    | (before, some (_, rest)) =>
      let (written, left) := formatOnce fuel rest (words.drop 1)
      (unescaped 2 before ++ (words.head?.getD []) ++ written, left)

/-- A format used again and again until it has taken all words. -/
def formatAll (format : Bytes) : Nat → List Bytes → Bytes
  | 0, _ => []
  | fuel + 1, words =>
    let (written, left) := formatOnce format.length.succ format words
    if left.isEmpty ∨ left.length = words.length then written
    else written ++ formatAll format fuel left

/-- Words with a blank between each two. -/
def joinWords (words : List Bytes) : Bytes := (words.intersperse [0x20]).flatten

/-! ## Numbers and sets -/

/-- A number in decimal. -/
def number? (word : Bytes) : Option Nat :=
  Text.Decimal.below? Text.Decimal.wordBound (Text.Utf8.lossy word)

/-- The nanoseconds of a second. -/
def nanosecondsPerSecond : Nat := 1000000000

/-- A time in seconds, perhaps with decimals, in nanoseconds. -/
def seconds? (word : Bytes) : Option Nat := do
  match Text.fields (· == '.') (Text.Utf8.lossy word) with
  | [whole] => return (← Text.Decimal.below? Text.Decimal.wordBound whole) * nanosecondsPerSecond
  | [whole, decimals] =>
    let whole ← if whole.isEmpty then some 0 else Text.Decimal.below? Text.Decimal.wordBound whole
    let part ← Text.Decimal.below? Text.Decimal.wordBound decimals
    return whole * nanosecondsPerSecond
      + part * nanosecondsPerSecond / Nat.pow 10 decimals.length
  | _ => none

/-- The members of a set of bytes, its ranges filled in. -/
def members : Bytes → Bytes
  | first :: 0x2D :: last :: rest =>
    ((List.range (last.toNat + 1 - first.toNat)).map fun n => UInt8.ofNat (first.toNat + n))
      ++ members rest
  | b :: rest => b :: members rest
  | [] => []

/-- The change that replaces each member of a set by the one at its place in another, whose last one
is repeated. -/
def replacement (old new : Bytes) (b : UInt8) : UInt8 :=
  match old.findIdx? (· = b) with
  | some index => ((new[index]?).or new.getLast?).getD b
  | none => b

/-! ## Commands -/

/-- The signals that a script names. -/
def signals : List (String × Nat) :=
  [("HUP", 1), ("INT", 2), ("QUIT", 3), ("ABRT", 6), ("KILL", 9), ("USR1", 10), ("SEGV", 11),
   ("USR2", 12), ("PIPE", 13), ("ALRM", 14), ("TERM", 15)]

/-- The signal with a number or a name. -/
def signal? (word : Bytes) : Option Nat :=
  (number? word).or (signals.lookup (Text.Utf8.display word))

/-- What a command does: it lets bytes flow, by itself or in a process of its own, or acts otherwise. -/
inductive Effect where
  | flow (flow : Flow) (own : Bool)
  | actions (actions : List Action)

/-- A flow of bytes known beforehand, written by the script itself. -/
def Effect.say (bytes : Bytes) : Effect := .flow { origin := .bytes bytes } true

/-- A file as the origin of a flow. -/
def fileOrigin (path : Path) : Origin :=
  if path = Bytes.ascii "/dev/zero" then .zeros
  else if path = Bytes.ascii "/dev/null" then .bytes []
  else .file path

/-- What a command does to the flow that comes to it, if it is one that does. -/
def treatment? (flow : Flow) (name : String) (words : List Bytes) : Option Effect :=
  match name, words with
  | "cat", [] => some (.flow flow false)
  | "cat", [file] => some (.flow { origin := fileOrigin file } false)
  | "head", option :: count :: files => do
    guard (option = Bytes.ascii "-c")
    let count ← number? count
    match files with
    | [] => return .flow { flow with limit := some ((flow.limit.map (min count)).getD count) } false
    | [file] => return .flow { origin := fileOrigin file, limit := some count } false
    | _ => none
  | "tr", [old, new] =>
    let change := replacement (members (unescaped 2 old)) (members (unescaped 2 new))
    some (.flow { flow with change := change ∘ flow.change } false)
  | _, _ => none

/-- The signal that words ask for, if it is for the process with this number. -/
def killSignal? (process : Bytes) : List Bytes → Option Nat
  | [target] => do
    guard (target = process)
    return 15
  | [0x2D :: signal, target] => do
    guard (target = process)
    signal? signal
  | [option, signal, target] => do
    guard (option = Bytes.ascii "-s" ∧ target = process)
    signal? signal
  | _ => none

/-- What a command does in the script of a process with this number, if it is known. -/
def effect? (process : Bytes) (flow : Flow) (name : String) (words : List Bytes) : Option Effect :=
  match name with
  | "echo" =>
    if words.head? = some (Bytes.ascii "-n") then some (.say (unescaped 3 (joinWords (words.drop 1))))
    else some (.say (unescaped 3 (joinWords words) ++ [Bytes.lineFeed]))
  | "printf" => some (.say (formatAll (words.headD []) words.length (words.drop 1)))
  | "true" | ":" => some (.actions [])
  | "sleep" => do return .actions [.pause (← seconds? (← words.head?))]
  | "touch" => some (.actions (words.map (.create · false)))
  | "kill" => do return .actions [.die (← killSignal? process words)]
  | name => treatment? flow name words

end LspProxy.Rehearsal
