/-!
# Lines of a document

How many lines a text has, and how long the last one is. A line ends at a line feed, at a carriage
return, or at the two together; a final line ending starts no further line. Lengths are in UTF-16
code units, the unit in which editors count columns. A byte-order mark at the start belongs to no
line.

The text is read once, left to right; `Tally` holds what has been seen.
-/
namespace LspProxy.Text

/-- The UTF-16 code units of a character: two beyond the basic plane. -/
def units16 (c : Char) : Nat := if c.toNat < 0x10000 then 1 else 2

/-- What has been read of a text. -/
structure Tally where
  /-- The lines already ended. -/
  ended : Nat := 0
  /-- The length of the last of them. -/
  lastEnded : Nat := 0
  /-- The length of the line being read. -/
  current : Nat := 0
  /-- The character before was a carriage return, so a line feed now belongs to it. -/
  returned : Bool := false
  deriving Repr, DecidableEq

/-- The line being read ends here. -/
def Tally.endLine (tally : Tally) : Tally :=
  { ended := tally.ended + 1, lastEnded := tally.current, current := 0, returned := false }

/-- Read one character. -/
def Tally.feed (tally : Tally) (c : Char) : Tally :=
  if c = '\n' then
    if tally.returned then { tally with returned := false } else tally.endLine
  else if c = '\r' then { tally.endLine with returned := true }
  else { tally with current := tally.current + units16 c, returned := false }

/-- The number of lines and the length of the last: a line that holds nothing at the end of the
text is none. -/
def Tally.measure (tally : Tally) : Nat × Nat :=
  if tally.current = 0 then (tally.ended, tally.lastEnded) else (tally.ended + 1, tally.current)

/-- A text without a leading byte-order mark. -/
def withoutMark : List Char → List Char
  | '\uFEFF' :: text => text
  | text => text

/-- The exact number of lines and length of the last line. -/
def measure (text : List Char) : Nat × Nat := ((withoutMark text).foldl Tally.feed {}).measure

/-- The number of lines and the length of the last, as editors exchange them. -/
structure LineMetrics where
  lines : Nat
  last : Nat
  deriving Repr, DecidableEq

/-- The greatest number a position can hold. -/
def positionLimit : Nat := 0xFFFFFFFF

/-- The measure of a text, each part cut off at the greatest number a position can hold. -/
def lineMetrics (text : List Char) : LineMetrics :=
  let (lines, last) := measure text
  ⟨min lines positionLimit, min last positionLimit⟩

example : lineMetrics "a\r\nbcd".toList = ⟨2, 3⟩ := by decide
example : lineMetrics "ab\n".toList = ⟨1, 2⟩ := by decide
example : lineMetrics "\r\n\r\r\n😀".toList = ⟨4, 2⟩ := by decide

end LspProxy.Text
