import LspProxy.Text.Blank
import LspProxy.Text.Utf8

/-!
# The words of a script

A script is a line of words and marks. Blanks end a word, quotes keep a word together, a backslash
keeps the character after it, and a dollar sign stands for an argument of the script. Between double
quotes only the dollar sign, the backslash and the quote itself are special, between single quotes
nothing is. What follows a number sign at the start of a word is a comment.
-/
namespace LspProxy.Rehearsal

/-- A part of a script. -/
inductive Token where
  /-- A word, and whether it was written without quotes. -/
  | word (content : Bytes) (bare : Bool)
  /-- A sign that separates or redirects. -/
  | mark (sign : String)
  deriving Repr, DecidableEq

/-- What a script is called with. -/
structure Call where
  /-- The name it goes by. -/
  name : Bytes
  arguments : List Bytes
  /-- The number of its process. -/
  process : Nat
  deriving Repr, DecidableEq

/-- The number of a process as a script sees it. -/
def Call.processText (call : Call) : Bytes := Bytes.ascii (toString call.process)

/-- What a character after a dollar sign stands for: several words for all arguments, and nothing for
other characters. -/
def Call.value (call : Call) (c : Char) : Option (List Bytes) :=
  if c = '@' ∨ c = '*' then some call.arguments
  else if c = '$' then some [call.processText]
  else if c = '#' then some [Bytes.ascii (toString call.arguments.length)]
  else if c = '0' then some [call.name]
  else if c.isDigit then some [(call.arguments[c.toNat - 49]?).getD []]
  else none

/-- Where in a script a reader is. -/
inductive Surrounding where
  | bare
  | singleQuoted
  | doubleQuoted
  | comment
  deriving Repr, DecidableEq

/-- A script read so far. -/
structure Reading where
  /-- The tokens, the last one first. -/
  tokens : List Token := []
  /-- The word under way, and whether it has had no quotes. -/
  word : Option (Bytes × Bool) := none

namespace Reading

def start (reading : Reading) : Bytes × Bool := reading.word.getD ([], true)

/-- Add bytes to the word under way. -/
def add (reading : Reading) (bytes : Bytes) : Reading :=
  let (content, bare) := reading.start
  { reading with word := some (content ++ bytes, bare) }

/-- The word under way holds a quote. -/
def quote (reading : Reading) : Reading := { reading with word := some (reading.start.1, false) }

/-- End the word under way. -/
def endWord (reading : Reading) : Reading :=
  match reading.word with
  | none => reading
  | some (content, bare) => { tokens := .word content bare :: reading.tokens }

/-- Add several words to the one under way; the last of them remains under way. -/
def addAll (reading : Reading) : List Bytes → Reading
  | [] => reading
  | [word] => reading.add word
  | word :: words => ((reading.add word).endWord).addAll words

/-- Add a sign. A digit right before a redirection belongs to it. -/
def mark (reading : Reading) (sign : String) : Reading :=
  match reading.word, sign.startsWith ">" with
  | some ([digit], true), true =>
    if digit = 0x31 ∨ digit = 0x32 then
      { tokens := .mark (toString (digit.toNat - 0x30) ++ sign) :: reading.tokens }
    else
      let ended := reading.endWord
      { ended with tokens := .mark sign :: ended.tokens }
  | _, _ =>
    let ended := reading.endWord
    { ended with tokens := .mark sign :: ended.tokens }

end Reading

/-- The characters that a backslash takes their meaning from between double quotes. -/
def isSpecial (c : Char) : Bool := c = '$' || c = '"' || c = '\\' || c = '\x60'

/-- Read on. -/
def readOn (call : Call) : Surrounding → Reading → List Char → Reading
  | _, reading, [] => reading.endWord
  | .comment, reading, c :: rest =>
    if c = '\n' then readOn call .bare (reading.mark ";") rest else readOn call .comment reading rest
  | .singleQuoted, reading, c :: rest =>
    if c = '\'' then readOn call .bare reading rest
    else readOn call .singleQuoted (reading.add (Text.Utf8.encode [c])) rest
  | .doubleQuoted, reading, '"' :: rest => readOn call .bare reading rest
  | .doubleQuoted, reading, '\\' :: c :: rest =>
    let kept := if isSpecial c then [c] else ['\\', c]
    readOn call .doubleQuoted (reading.add (Text.Utf8.encode kept)) rest
  | .doubleQuoted, reading, '$' :: c :: rest =>
    match call.value c with
    | some words => readOn call .doubleQuoted (reading.addAll words).quote rest
    | none => readOn call .doubleQuoted (reading.add (Text.Utf8.encode ['$', c])) rest
  | .doubleQuoted, reading, c :: rest =>
    readOn call .doubleQuoted (reading.add (Text.Utf8.encode [c])) rest
  | .bare, reading, '\\' :: c :: rest => readOn call .bare (reading.add (Text.Utf8.encode [c])).quote rest
  | .bare, reading, '$' :: c :: rest =>
    match call.value c with
    | some words => readOn call .bare (reading.addAll words) rest
    | none => readOn call .bare (reading.add (Text.Utf8.encode ['$', c])) rest
  | .bare, reading, '&' :: '&' :: rest => readOn call .bare (reading.mark "&&") rest
  | .bare, reading, '|' :: '|' :: rest => readOn call .bare (reading.mark "||") rest
  | .bare, reading, '>' :: '>' :: rest => readOn call .bare (reading.mark ">>") rest
  | .bare, reading, '>' :: '&' :: rest => readOn call .bare (reading.mark ">&") rest
  | .bare, reading, c :: rest =>
    if c = '\'' then readOn call .singleQuoted reading.quote rest
    else if c = '"' then readOn call .doubleQuoted reading.quote rest
    else if c = '#' ∧ reading.word = none then readOn call .comment reading rest
    else if c = '\n' ∨ c = ';' then readOn call .bare (reading.mark ";") rest
    else if c = '|' ∨ c = '>' ∨ c = '<' then readOn call .bare (reading.mark (String.ofList [c])) rest
    else if c = ' ' ∨ c = '\t' then readOn call .bare reading.endWord rest
    else readOn call .bare (reading.add (Text.Utf8.encode [c])) rest

/-- The tokens of a script. -/
def tokens (call : Call) (script : List Char) : List Token :=
  (readOn call .bare {} script).tokens.reverse

end LspProxy.Rehearsal
