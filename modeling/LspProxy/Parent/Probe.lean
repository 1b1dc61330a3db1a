import LspProxy.Text.Blank
import LspProxy.Text.Decimal
import LspProxy.Text.Fields

/-!
# The parent process

The number of the parent is read from the first line of a status document that states it. Zero stands
for no parent. A process is alive if a signal could be sent to it; a number that is too great for a
process belongs to none.
-/
namespace LspProxy.Parent

/-- What precedes the number of the parent. -/
def statusKey : List Char := "PPid:".toList

/-- The number of the parent that a status document states. -/
def number? (status : List Char) : Option Nat := do
  let line ← (Text.fields (· == '\n') status).find? statusKey.isPrefixOf
  let number ← Text.Decimal.below? Text.Decimal.halfWordBound
    (Text.trimBlanks (line.drop statusKey.length))
  if number = 0 then none else some number

/-- The least number that no process has. -/
def processBound : Nat := 0x80000000

/-- The process with this number is alive, `running` being those that are. The number zero stands for
the asking process itself. -/
def isAlive (running : List Nat) (number : Nat) : Bool :=
  number < processBound && (number = 0 || running.contains number)

/-- What the system says about a parent: its number, if it has one, and whether it is alive when it is
asked after for so many times before. -/
structure Probe where
  parent : Option Nat
  alive : Nat → Bool

example : number? "Name:\tx\nPPid:\t42\n".toList = some 42 := by decide +kernel
example : number? "PPid:\t0\nPPid:\t7\n".toList = none := by decide +kernel

end LspProxy.Parent
