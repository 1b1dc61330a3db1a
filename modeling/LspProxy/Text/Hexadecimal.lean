import LspProxy.Bytes

/-!
# Hexadecimal digits

Digits of both cases are read; upper-case ones are written.
-/
namespace LspProxy.Text.Hexadecimal

/-- The value of a digit. -/
def digit? (b : UInt8) : Option Nat :=
  if 0x30 ≤ b ∧ b ≤ 0x39 then some (b.toNat - 0x30)
  else if 0x41 ≤ b ∧ b ≤ 0x46 then some (b.toNat - 0x37)
  else if 0x61 ≤ b ∧ b ≤ 0x66 then some (b.toNat - 0x57)
  else none

/-- The upper-case digit of a value below sixteen. -/
def upper (value : Nat) : UInt8 := UInt8.ofNat (if value < 10 then 0x30 + value else 0x37 + value)

/-- A written digit is read back. -/
theorem digit?_upper {value : Nat} (small : value < 16) : digit? (upper value) = some value := by
  have every : ∀ v ∈ List.range 16, digit? (upper v) = some v := by decide
  exact every value (List.mem_range.mpr small)

end LspProxy.Text.Hexadecimal
