import LspProxy.Text.Utf8
import LspProxy.Text.Blank
import LspProxy.Text.Decimal

/-!
# The header of a frame

A frame opens with one line that announces the length of its body:

    Content-Length: <n>

The literal `token` is what marks the start of a frame in a stream. `announced?` reads the number
from the line: the token, one space, and then, between any blanks, an unsigned decimal below
2 ^ 64.
-/
namespace LspProxy.Frame

/-- The literal that opens every frame. -/
def token : Bytes := Bytes.ascii "Content-Length:"

/-- What stands before the number in a header line. -/
def opening : Bytes := Bytes.ascii "Content-Length: "

/-- A line ending. -/
def lineEnd : Bytes := [Bytes.carriageReturn, Bytes.lineFeed]

/-- The text after a fixed beginning, if it has that beginning. -/
def after? : List Char → List Char → Option (List Char)
  | [], text => some text
  | c :: beginning, d :: text => if c = d then after? beginning text else none
  | _ :: _, [] => none

/-- The body length that a header line announces. -/
def announced? (line : Bytes) : Option Nat := do
  let text ← Text.Utf8.decode? line
  let number ← after? "Content-Length: ".toList text
  Text.Decimal.below? Text.Decimal.wordBound (Text.trimBlanks number)

example : announced? (Bytes.ascii "Content-Length: \t+012 ") = some 12 := by decide
example : announced? (Bytes.ascii "Content-Length:12") = none := by decide

end LspProxy.Frame
