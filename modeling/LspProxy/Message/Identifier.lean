import LspProxy.Json.Record
import LspProxy.Json.Printer

/-!
# Identifiers

A request identifier or a progress token is an integer of 64 bits or a text. Any other number is not
altered to fit but refused, and a text that looks like a number stays a text.
-/
namespace LspProxy.Message

/-- An identifier of a request or of a progress report. -/
inductive Identifier where
  | number (value : Int)
  | text (value : String)
  deriving Repr, DecidableEq

namespace Identifier

/-- An integer of 64 bits. -/
def inRange (value : Int) : Bool := -0x8000000000000000 ≤ value && value < 0x8000000000000000

/-- Read an identifier. Values of another kind are read to their end before they are refused, with
fewer than `depth` brackets open at once. -/
def read (depth : Nat) (input : Bytes) : Except Json.Fault (Identifier × Bytes) :=
  let bounded : Json.Number × Bytes → Except Json.Fault (Identifier × Bytes)
    | (.integer value, rest) =>
      if inRange value then .ok (.number value, rest) else .error .mismatched
    | (.fractional, _) => .error .mismatched
  match Json.skipSpace input with
  | [] => .error .truncated
  | 0x22 :: rest => do
    let (value, rest) ← Json.readString rest
    return (.text value, rest)
  | b :: rest =>
    if b = 0x2D then Json.readNumber true rest >>= bounded
    else if Json.isDigit b then Json.readNumber false (b :: rest) >>= bounded
    else
      match Json.pass (Json.keeping depth) (b :: rest) with
      | .ok _ => .error .mismatched
      | .error fault => .error fault

/-- The written form of an identifier. -/
def print : Identifier → List Char
  | number value => Json.printInteger value
  | text value => Json.quote value

end Identifier

end LspProxy.Message
