/-!
# Durations

A length of time in nanoseconds, and its written form: the greatest unit that makes it at least one,
with as many decimals as the rest needs.
-/
namespace LspProxy

/-- A length of time. -/
structure Duration where
  nanoseconds : Nat
  deriving Repr, DecidableEq

namespace Duration

def ofMilliseconds (count : Nat) : Duration := ⟨count * 1000000⟩

def ofSeconds (count : Nat) : Duration := ⟨count * 1000000000⟩

/-- The whole milliseconds of a duration. -/
def milliseconds (duration : Duration) : Nat := duration.nanoseconds / 1000000

/-- The decimals of a fraction of a unit of `10 ^ places`, without zeros at the end. -/
def decimals (places fraction : Nat) : List Char :=
  let digits := Nat.toDigits 10 fraction
  let padded := List.replicate (places - digits.length) '0' ++ digits
  (padded.reverse.dropWhile (· = '0')).reverse

/-- A number of nanoseconds in a unit of `10 ^ places` of them. -/
def inUnit (places nanoseconds : Nat) (unit : String) : String :=
  let whole := toString (nanoseconds / Nat.pow 10 places)
  let fraction := nanoseconds % Nat.pow 10 places
  if fraction = 0 then whole ++ unit
  else whole ++ "." ++ String.ofList (decimals places fraction) ++ unit

/-- The written form of a duration. -/
def display (duration : Duration) : String :=
  let count := duration.nanoseconds
  if 1000000000 ≤ count then inUnit 9 count "s"
  else if 1000000 ≤ count then inUnit 6 count "ms"
  else if 1000 ≤ count then inUnit 3 count "µs"
  else inUnit 0 count "ns"

example : (Duration.mk 1500000000).display = "1.5s" := by decide +kernel
example : (Duration.mk 1001).display = "1.001µs" := by decide +kernel
example : (Duration.mk 0).display = "0ns" := by decide +kernel

end Duration

end LspProxy
