import LspProxy.Bytes

/-!
# Punycode

The ASCII form of a domain label in another script: the basic characters, then a delta for each
inserted one, written in a variable-length base of 36 whose digit thresholds adapt. Only decoding is
needed, to tell labels that stand for something from those that do not.
-/
namespace LspProxy.Uri.Punycode

/-- The value of a digit: letters of either case, then decimal digits. -/
def digit? (c : Char) : Option Nat :=
  if 'a' ≤ c ∧ c ≤ 'z' then some (c.toNat - 97)
  else if 'A' ≤ c ∧ c ≤ 'Z' then some (c.toNat - 65)
  else if c.isDigit then some (c.toNat - 48 + 26)
  else none

/-- The threshold of the digit at this position. -/
def threshold (position bias : Nat) : Nat := min 26 (max 1 (position - bias))

/-- Scale a delta down, counting the steps in units of the base. -/
def scale (steps delta : Nat) : Nat :=
  if 455 < delta then scale (steps + 36) (delta / 35) else steps + 36 * delta / (delta + 38)
termination_by delta
decreasing_by omega

/-- The bias after a delta; the first one is damped. -/
def adapt (delta count : Nat) (first : Bool) : Nat :=
  let damped := if first then delta / 700 else delta / 2
  scale 0 (damped + damped / count)

/-- One delta, added to `index`, and what follows it. -/
def delta? (bias : Nat) (position weight index : Nat) : List Char → Option (Nat × List Char)
  | [] => none
  | c :: rest => do
    let digit ← digit? c
    let index := index + digit * weight
    if index ≥ 0x100000000 then none
    else if digit < threshold position bias then some (index, rest)
    else delta? bias (position + 36) (weight * (36 - threshold position bias)) index rest

/-- Put a character into a text. -/
def insertAt (c : Char) : Nat → List Char → List Char
  | n + 1, first :: rest => first :: insertAt c n rest
  | _, text => c :: text

/-- The text after the insertions that the deltas describe. Each delta takes at least one digit, so
there are no more of them than characters. -/
def insertions (text : List Char) (code index bias : Nat) : Nat → List Char → Option (List Char)
  | _, [] => some text
  | 0, _ :: _ => none
  | left + 1, deltas => do
    let (reached, rest) ← delta? bias 36 1 index deltas
    let count := text.length + 1
    let code := code + reached / count
    let place := reached % count
    if code.isValidChar then
      insertions (insertAt (Char.ofNat code) place text) code (place + 1)
        (adapt (reached - index) count (index = 0)) left rest
    else none

/-- The text that a label without its marker stands for. The basic characters end at the last
hyphen. -/
def decode? (label : List Char) : Option (List Char) :=
  let deltas := (label.reverse.takeWhile (· ≠ '-')).reverse
  let basic := (label.take (label.length - deltas.length)).dropLast
  insertions basic 128 0 72 deltas.length deltas

example : decode? "bcher-kva".toList = some "bücher".toList := by decide +kernel
example : decode? "p1ai".toList = some "рф".toList := by decide +kernel
example : decode? "a!".toList = none := by decide +kernel

end LspProxy.Uri.Punycode
