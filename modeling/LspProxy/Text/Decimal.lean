/-!
# Unsigned decimals

The reading of a bounded natural number: an optional plus sign, then at least one ASCII digit and
nothing else, with a value below the bound. `value` is the positional value of the digits.
-/
namespace LspProxy.Text.Decimal

/-- The value of one ASCII digit. -/
def digit (c : Char) : Nat := c.toNat - 48

/-- The positional value of digits, most significant first. -/
def value (digits : List Char) : Nat := digits.foldl (fun total c => total * 10 + digit c) 0

/-- At least one digit, digits only, and a value below `bound`. -/
def digitsBelow? (bound : Nat) (digits : List Char) : Option Nat :=
  if digits ≠ [] ∧ digits.all Char.isDigit ∧ value digits < bound then some (value digits) else none

/-- A number below `bound`, a leading plus sign allowed. -/
def below? (bound : Nat) : List Char → Option Nat
  | '+' :: digits => digitsBelow? bound digits
  | digits => digitsBelow? bound digits

/-- The least number that needs more than 64 bits. -/
def wordBound : Nat := 0x10000000000000000

/-- The least number that needs more than 32 bits. -/
def halfWordBound : Nat := 0x100000000

example : below? wordBound "+0012".toList = some 12 := by decide
example : below? wordBound "+".toList = none := by decide
example : below? halfWordBound "4294967296".toList = none := by decide

end LspProxy.Text.Decimal
