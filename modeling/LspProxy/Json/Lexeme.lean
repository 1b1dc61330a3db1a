import LspProxy.Text.Hexadecimal
import LspProxy.Text.Utf8

/-!
# The lexemes of JSON

JSON text is read left to right, and the first fault met decides the answer. A fault is one of
three: the text breaks the grammar, the text ends too early, or it is well formed so far and not of
the shape that is asked for.

There are two ways past a string or a number. Where the value is kept it is checked in full
(`readString`, `readNumber`): strings are UTF-8 with paired surrogates, numbers lie in the range of
a double. Where it is ignored (`skipString`, `skipNumber`) only the outline is checked, and a number
cut off by the end of the text counts as ill formed. All functions return what follows the lexeme.
-/
namespace LspProxy.Json

/-- The first fault met in a text. -/
inductive Fault where
  /-- The text breaks the grammar. -/
  | malformed
  /-- The text ends too early. -/
  | truncated
  /-- The text is not of the shape asked for. -/
  | mismatched
  deriving Repr, DecidableEq

/-- The four blanks of JSON. -/
def isSpace (b : UInt8) : Bool := b = 0x20 || b = 0x0A || b = 0x09 || b = 0x0D

/-- The text from the first byte that is not blank. -/
def skipSpace (input : Bytes) : Bytes := input.dropWhile isSpace

def isDigit (b : UInt8) : Bool := 0x30 ≤ b && b ≤ 0x39

def digit (b : UInt8) : Nat := b.toNat - 0x30

/-- The value of four hexadecimal digits. -/
def hex4? (a b c d : UInt8) : Option Nat := do
  let digit? := Text.Hexadecimal.digit?
  return (((← digit? a) * 16 + (← digit? b)) * 16 + (← digit? c)) * 16 + (← digit? d)

/-- The byte that an escape letter stands for. -/
def escaped? (letter : UInt8) : Option UInt8 :=
  if letter = 0x22 ∨ letter = 0x5C ∨ letter = 0x2F then some letter
  else if letter = 0x62 then some 0x08
  else if letter = 0x66 then some 0x0C
  else if letter = 0x6E then some 0x0A
  else if letter = 0x72 then some 0x0D
  else if letter = 0x74 then some 0x09
  else none

/-- The rest of a keyword. -/
def keyword : List UInt8 → Bytes → Except Fault Bytes
  | [], input => .ok input
  | _ :: _, [] => .error .truncated
  | letter :: letters, b :: input => if b = letter then keyword letters input else .error .malformed

/-- What follows `n`, `t` and `f` in the three keywords. -/
def nullRest : List UInt8 := [0x75, 0x6C, 0x6C]

def trueRest : List UInt8 := [0x72, 0x75, 0x65]

def falseRest : List UInt8 := [0x61, 0x6C, 0x73, 0x65]

/-! ## Ignored lexemes -/

/-- Past a string whose opening quote has been read. Escapes must be of a known form; what they
stand for does not matter. -/
def skipString : Bytes → Except Fault Bytes
  | [] => .error .truncated
  | b :: input =>
    if b = 0x22 then .ok input
    else if b = 0x5C then
      match input with
      | [] => .error .truncated
      | letter :: input =>
        if letter = 0x75 then
          match input with
          | h₁ :: h₂ :: h₃ :: h₄ :: input =>
            if (hex4? h₁ h₂ h₃ h₄).isSome then skipString input else .error .malformed
          | _ => .error .truncated
        else if (escaped? letter).isSome then skipString input
        else .error .malformed
    else if b < 0x20 then .error .malformed
    else skipString input

/-- Past an exponent whose letter has been read. -/
def skipExponent (input : Bytes) : Except Fault Bytes :=
  let unsigned := match input with
    | b :: rest => if b = 0x2B ∨ b = 0x2D then rest else input
    | [] => input
  match unsigned with
  | b :: rest => if isDigit b then .ok (rest.dropWhile isDigit) else .error .malformed
  | [] => .error .malformed

/-- Past an optional exponent. -/
def skipOptionalExponent : Bytes → Except Fault Bytes
  | b :: input => if b = 0x65 ∨ b = 0x45 then skipExponent input else .ok (b :: input)
  | [] => .ok []

/-- Past what may follow the integer part of a number. -/
def skipFraction : Bytes → Except Fault Bytes
  | 0x2E :: input =>
    if (input.takeWhile isDigit).isEmpty then .error .malformed
    else skipOptionalExponent (input.dropWhile isDigit)
  | input => skipOptionalExponent input

/-- Past a number whose sign has been read. -/
def skipNumber (input : Bytes) : Except Fault Bytes :=
  match input.takeWhile isDigit with
  | [] => .error .malformed
  | first :: others =>
    if first = 0x30 ∧ others ≠ [] then .error .malformed
    else skipFraction (input.dropWhile isDigit)

/-! ## Kept lexemes -/

/-- The octets of the character with this code. -/
def encodeCode (code : Nat) : Bytes := String.utf8EncodeChar (Char.ofNat code)

/-- The octets of a kept string whose opening quote has been read, collected newest first. A
surrogate must be the first half of a pair, escaped as well. -/
def collectString (collected : Bytes) : Bytes → Except Fault (Bytes × Bytes)
  | [] => .error .truncated
  | b :: input =>
    if b = 0x22 then .ok (collected.reverse, input)
    else if b = 0x5C then
      match input with
      | [] => .error .truncated
      | letter :: input =>
        if letter = 0x75 then
          match input with
          | h₁ :: h₂ :: h₃ :: h₄ :: input =>
            match hex4? h₁ h₂ h₃ h₄ with
            | none => .error .malformed
            | some code =>
              if 0xDC00 ≤ code ∧ code ≤ 0xDFFF then .error .malformed
              else if code < 0xD800 ∨ 0xDBFF < code then
                collectString ((encodeCode code).reverse ++ collected) input
              else
                match input with
                | [] => .error .truncated
                | [b] => if b = 0x5C then .error .truncated else .error .malformed
                | b :: u :: input =>
                  if b = 0x5C ∧ u = 0x75 then
                    match input with
                    | l₁ :: l₂ :: l₃ :: l₄ :: input =>
                      match hex4? l₁ l₂ l₃ l₄ with
                      | none => .error .malformed
                      | some low =>
                        if 0xDC00 ≤ low ∧ low ≤ 0xDFFF then
                          let joined := 0x10000 + (code - 0xD800) * 0x400 + (low - 0xDC00)
                          collectString ((encodeCode joined).reverse ++ collected) input
                        else .error .malformed
                    | _ => .error .truncated
                  else .error .malformed
          | _ => .error .truncated
        else
          match escaped? letter with
          | some byte => collectString (byte :: collected) input
          | none => .error .malformed
    else if b < 0x20 then .error .malformed
    else collectString (b :: collected) input

/-- A kept string whose opening quote has been read. -/
def readString (input : Bytes) : Except Fault (String × Bytes) := do
  let (octets, rest) ← collectString [] input
  match Text.Utf8.toString? octets with
  | some text => .ok (text, rest)
  | none => .error .malformed

/-- A kept number: an integer, or a number of any other form. -/
inductive Number where
  | integer (value : Int)
  | fractional
  deriving Repr, DecidableEq

/-- The greatest significand that is kept exactly. -/
def maxSignificand : Nat := 0xFFFFFFFFFFFFFFFF

/-- A significand with the power of ten that belongs to it. -/
structure Scaled where
  significand : Nat := 0
  exponent : Int := 0
  /-- A digit has been left out because it did not fit. -/
  full : Bool := false
  deriving Repr, DecidableEq

/-- One more digit before the point. Once a digit did not fit, digits only count. -/
def Scaled.integral (scaled : Scaled) (b : UInt8) : Scaled :=
  if scaled.full ∨ maxSignificand < scaled.significand * 10 + digit b then
    { scaled with exponent := scaled.exponent + 1, full := true }
  else { scaled with significand := scaled.significand * 10 + digit b }

/-- One more digit after the point. Once a digit did not fit, digits are left out. -/
def Scaled.decimal (scaled : Scaled) (b : UInt8) : Scaled :=
  if scaled.full ∨ maxSignificand < scaled.significand * 10 + digit b then { scaled with full := true }
  else
    { scaled with
      significand := scaled.significand * 10 + digit b
      exponent := scaled.exponent - 1 }

/-- A natural number rounded to 53 significant bits, a half going to the even neighbour. -/
def roundToDouble (n : Nat) : Nat :=
  if n < 0x20000000000000 then n
  else
    let unit := Nat.pow 2 (n.log2 - 52)
    let quotient := n / unit
    let remainder := n % unit
    if unit < 2 * remainder ∨ (unit = 2 * remainder ∧ quotient % 2 = 1) then (quotient + 1) * unit
    else quotient * unit

/-- The least natural number that no longer rounds to a finite double. -/
def doubleOverflow : Nat := Nat.pow 2 1024 - Nat.pow 2 970

/-- Whether the number is beyond the range of doubles: both factors are doubles, and their product
rounds to infinity. -/
def Scaled.tooLarge (scaled : Scaled) : Bool :=
  scaled.significand ≠ 0 && decide (0 ≤ scaled.exponent) &&
    (decide (308 < scaled.exponent) ||
      decide (doubleOverflow ≤
        roundToDouble scaled.significand * roundToDouble (Nat.pow 10 scaled.exponent.toNat)))

/-- A number in range. -/
def Scaled.bounded (scaled : Scaled) (rest : Bytes) : Except Fault (Number × Bytes) :=
  if scaled.tooLarge then .error .malformed else .ok (.fractional, rest)

/-- The exponent of a kept number whose letter has been read. -/
def readExponent (scaled : Scaled) (input : Bytes) : Except Fault (Number × Bytes) :=
  let (negative, unsigned) := match input with
    | b :: rest =>
      if b = 0x2D then (true, rest) else if b = 0x2B then (false, rest) else (false, input)
    | [] => (false, input)
  match unsigned with
  | [] => .error .truncated
  | b :: _ =>
    if isDigit b then
      let power : Int := (unsigned.takeWhile isDigit).foldl (fun total b => total * 10 + digit b) 0
      let scaled := { scaled with
        exponent := scaled.exponent + (if negative then -power else power) }
      scaled.bounded (unsigned.dropWhile isDigit)
    else .error .malformed

/-- What may follow the digits of a kept number that is no integer. -/
def readOptionalExponent (scaled : Scaled) : Bytes → Except Fault (Number × Bytes)
  | b :: input =>
    if b = 0x65 ∨ b = 0x45 then readExponent scaled input else scaled.bounded (b :: input)
  | [] => scaled.bounded []

/-- An integer as it is kept: beyond 64 bits, and for a negative zero, it is none. -/
def Scaled.integer (scaled : Scaled) (negative : Bool) (rest : Bytes) : Except Fault (Number × Bytes) :=
  if scaled.full then scaled.bounded rest
  else if negative then
    if 0 < scaled.significand ∧ scaled.significand ≤ 0x8000000000000000 then
      .ok (.integer (-scaled.significand), rest)
    else .ok (.fractional, rest)
  else .ok (.integer scaled.significand, rest)

/-- A kept number whose sign has been read. -/
def readNumber (negative : Bool) (input : Bytes) : Except Fault (Number × Bytes) :=
  match input.takeWhile isDigit with
  | [] => if input.isEmpty then .error .truncated else .error .malformed
  | first :: others =>
    if first = 0x30 ∧ others ≠ [] then .error .malformed
    else
      let whole := (first :: others).foldl Scaled.integral {}
      match input.dropWhile isDigit with
      | 0x2E :: rest =>
        let decimals := rest.takeWhile isDigit
        if decimals.isEmpty then if rest.isEmpty then .error .truncated else .error .malformed
        else
          let scaled := decimals.foldl Scaled.decimal { whole with full := false }
          readOptionalExponent scaled (rest.dropWhile isDigit)
      | 0x65 :: rest | 0x45 :: rest => readExponent whole rest
      | rest => whole.integer negative rest

example : (readNumber false (Bytes.ascii "17,")).toOption = some (.integer 17, [0x2C]) := by decide
example : (readNumber false (Bytes.ascii "1e400")).toOption = none := by decide +kernel
example : (readString (Bytes.ascii "\\ud83d\\ude00\"")).toOption = some ("😀", []) := by
  decide +kernel

end LspProxy.Json
