import LspProxy.Text.Utf8

/-!
# Writing JSON

Texts are written in quotes; the quote, the backslash and the control characters are escaped, all
else stands as it is. Nothing is written between the parts of a value, and the members of an object
stand in the order in which they are given.
-/
namespace LspProxy.Json

/-- A lower-case hexadecimal digit. -/
def hexChar (n : Nat) : Char := Nat.digitChar n

/-- One character inside quotes. -/
def escape (c : Char) : List Char :=
  if c = '"' then ['\\', '"']
  else if c = '\\' then ['\\', '\\']
  else if c = '\x08' then ['\\', 'b']
  else if c = '\x0C' then ['\\', 'f']
  else if c = '\n' then ['\\', 'n']
  else if c = '\r' then ['\\', 'r']
  else if c = '\t' then ['\\', 't']
  else if c.toNat < 0x20 then
    ['\\', 'u', '0', '0', hexChar (c.toNat / 16), hexChar (c.toNat % 16)]
  else [c]

/-- A text in quotes. -/
def quote (text : String) : List Char := '"' :: text.toList.flatMap escape ++ ['"']

/-- A natural number in decimal. -/
def printNatural (n : Nat) : List Char := Nat.toDigits 10 n

/-- An integer in decimal. -/
def printInteger (value : Int) : List Char :=
  if value < 0 then '-' :: printNatural value.natAbs else printNatural value.natAbs

/-- Parts with a comma between each two. -/
def commaSeparated : List (List Char) → List Char
  | [] => []
  | [part] => part
  | part :: parts => part ++ ',' :: commaSeparated parts

/-- An array of written values. -/
def printArray (elements : List (List Char)) : List Char := '[' :: commaSeparated elements ++ [']']

/-- An object of keys with written values. -/
def printObject (members : List (String × List Char)) : List Char :=
  '{' :: commaSeparated (members.map fun member => quote member.1 ++ ':' :: member.2) ++ ['}']

example : quote "a\"\x01é" = "\"a\\\"\\u0001é\"".toList := by decide

end LspProxy.Json
