/-!
# Byte strings

Everything the proxy carries is a finite sequence of octets. They are kept as lists, so that
cutting, joining and searching them are the library's own list operations. The two searches
here are the ones the wire format and the interception filter need: the position of the first
occurrence of a pattern, and whether there is one.
-/
namespace LspProxy

/-- A finite sequence of octets. -/
abbrev Bytes := List UInt8

namespace Bytes

/-- The carriage return that opens a line ending. -/
def carriageReturn : UInt8 := 13

/-- The line feed that closes a line ending. -/
def lineFeed : UInt8 := 10

/-- The octets of characters below U+0080, one each. -/
def ascii (text : String) : Bytes := text.toList.map (fun c => UInt8.ofNat c.toNat)

/-- The position of the first occurrence of `pattern`, counted from `skipped`. An empty remainder
holds no occurrence, so an empty pattern is found in nonempty sequences only. -/
def positionFrom (pattern : Bytes) (skipped : Nat) : Bytes → Option Nat
  | [] => none
  | b :: rest =>
    if pattern.isPrefixOf (b :: rest) then some skipped
    else positionFrom pattern (skipped + 1) rest

/-- The position of the first occurrence of `pattern`. -/
def position? (pattern bytes : Bytes) : Option Nat := positionFrom pattern 0 bytes

/-- Whether `pattern` occurs in `bytes`. -/
def contains (pattern bytes : Bytes) : Bool := (position? pattern bytes).isSome

end Bytes

end LspProxy
