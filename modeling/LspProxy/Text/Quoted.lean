import LspProxy.Text.Utf8

/-!
# Quoted texts

For reports a text is put into quotes in such a way that nothing in it can be mistaken for anything
else: the quote and the backslash are escaped, line ends and tabs have escapes of their own, and all
other characters that cannot be seen are shown by their number. Bytes may be quoted too; those that
are part of no character are shown one by one.
-/
namespace LspProxy.Text.Quoted

/-- The ranges of characters that cannot be seen, or that change how their neighbours are seen:
controls, separators other than the blank, marks that combine, signs for the direction or the
selection of a form, and what is for private use. -/
def unseenRanges : List (Nat × Nat) :=
  [(0, 0x1F), (0x7F, 0xA0), (0xAD, 0xAD), (0x300, 0x36F), (0x483, 0x489), (0x591, 0x5BD),
   (0x600, 0x605), (0x610, 0x61A), (0x61C, 0x61C), (0x64B, 0x65F), (0x1680, 0x1680),
   (0x180B, 0x180F), (0x1AB0, 0x1ACE), (0x1DC0, 0x1DFF), (0x2000, 0x200F), (0x2028, 0x202F),
   (0x205F, 0x206F), (0x20D0, 0x20F0), (0x3000, 0x3000), (0x302A, 0x302F), (0x3099, 0x309A),
   (0xD800, 0xF8FF), (0xFE00, 0xFE0F), (0xFE20, 0xFE2F), (0xFEFF, 0xFEFF), (0xFFF0, 0xFFFB),
   (0xFFFE, 0xFFFF), (0xE0000, 0x10FFFF)]

/-- The character can be seen. -/
def isSeen (c : Char) : Bool := ! unseenRanges.any fun (low, high) => low ≤ c.toNat ∧ c.toNat ≤ high

/-- One character between quotes. -/
def escape (c : Char) : List Char :=
  match c with
  | '"' => ['\\', '"']
  | '\\' => ['\\', '\\']
  | '\n' => ['\\', 'n']
  | '\r' => ['\\', 'r']
  | '\t' => ['\\', 't']
  | '\x00' => ['\\', '0']
  | c => if isSeen c then [c] else '\\' :: 'u' :: '\x7b' :: Nat.toDigits 16 c.toNat ++ ['\x7d']

/-- A text in quotes. -/
def ofText (text : String) : String := String.ofList ('"' :: text.toList.flatMap escape ++ ['"'])

/-- The character at the front of bytes, if there is one, and what follows it. -/
def front? (bytes : Bytes) : Option (Char × Bytes) :=
  [1, 2, 3, 4].findSome? fun length =>
    match Utf8.units (bytes.take length) with
    | [some c] => some (c, bytes.drop length)
    | _ => none

/-- One character of bytes between quotes. The single quote is escaped in them too. -/
def escapeInBytes (c : Char) : List Char := if c = '\'' then ['\\', '\''] else escape c

/-- A byte that is part of no character. -/
def escapeByte (b : UInt8) : List Char :=
  let digit (n : Nat) := (Nat.digitChar n).toUpper
  ['\\', 'x', digit (b.toNat / 16), digit (b.toNat % 16)]

/-- Bytes between quotes, at most so many units of them. -/
def escapeBytes : Nat → Bytes → List Char
  | 0, _ | _, [] => []
  | units + 1, b :: rest =>
    match front? (b :: rest) with
    | some (c, rest) => escapeInBytes c ++ escapeBytes units rest
    | none => escapeByte b ++ escapeBytes units rest

/-- Bytes in quotes. -/
def ofBytes (bytes : Bytes) : String :=
  String.ofList ('"' :: escapeBytes bytes.length bytes ++ ['"'])

example : ofText "a\"b\\\n" = "\"a\\\"b\\\\\\n\"" := by decide +kernel
example : ofBytes [0x61, 0xE2, 0x82, 0xC3, 0xA9] = "\"a\\xE2\\x82é\"" := by decide +kernel

end LspProxy.Text.Quoted
