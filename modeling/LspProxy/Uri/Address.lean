import LspProxy.Text.Fields
import LspProxy.Text.Decimal

/-!
# Numeric addresses as hosts

A host in brackets must be an address of eight groups; a domain whose last label is a number must be
an address of at most four parts. Only whether the text is an address matters to a file URI, never
which one, so both questions have yes or no for an answer.
-/
namespace LspProxy.Uri

def isHexDigit (c : Char) : Bool :=
  c.isDigit || ('a' ≤ c && c ≤ 'f') || ('A' ≤ c && c ≤ 'F')

/-- The value of a digit in a base of up to sixteen. -/
def digitValue (c : Char) : Nat :=
  if c.isDigit then c.toNat - 48 else if 'a' ≤ c then c.toNat - 87 else c.toNat - 55

/-- The value of digits in a base, most significant first. -/
def valueIn (base : Nat) (digits : List Char) : Nat :=
  digits.foldl (fun total c => total * base + digitValue c) 0

/-- The dots of a domain. -/
def isDot (c : Char) : Bool := c = '.'

/-! ## Addresses of four parts -/

/-- One part of an address: hexadecimal after `0x`, octal after a further `0`, else decimal. -/
def part? : List Char → Option Nat
  | [] => none
  | '0' :: 'x' :: digits | '0' :: 'X' :: digits =>
    if digits.all isHexDigit then some (valueIn 16 digits) else none
  | ['0'] => some 0
  | '0' :: digits =>
    if digits.all fun c => c.isDigit && c < '8' then some (valueIn 8 digits) else none
  | digits => if digits.all Char.isDigit then some (valueIn 10 digits) else none

/-- The labels of a domain, last first, one final dot not counted. -/
def labelsFromEnd (domain : List Char) : List (List Char) :=
  match (Text.fields isDot domain).reverse with
  | [] :: others => others
  | labels => labels

/-- The last label is a number, so the domain has to be an address. -/
def endsInNumber (domain : List Char) : Bool :=
  match labelsFromEnd domain with
  | [] => false
  | last :: _ => (last ≠ [] && last.all Char.isDigit) || (part? last).isSome

/-- An address of at most four parts: all but the last are bytes, and the last fills what is left of
the 32 bits. -/
def isQuad (domain : List Char) : Bool :=
  match (labelsFromEnd domain).mapM part? with
  | some (last :: others) =>
    others.length < 4 && others.all (· ≤ 255) && last < Nat.pow 256 (4 - others.length)
  | _ => false

/-! ## Addresses of eight groups -/

/-- A decimal byte without leading zeros. -/
def isPlainByte (digits : List Char) : Bool :=
  digits ≠ [] && digits.all Char.isDigit && (digits.length = 1 || digits.head? ≠ some '0')
    && Text.Decimal.value digits ≤ 255

/-- Four decimal bytes, as the last two groups may be written. -/
def isDottedTail (text : List Char) : Bool :=
  let parts := Text.fields isDot text
  parts.length = 4 && parts.all isPlainByte

/-- The groups of an address from the one with this index on; `gap` says that an empty group has
stood for as many zeros as are missing. -/
def groups (index : Nat) (gap : Bool) (text : List Char) : Bool :=
  match text with
  | [] => gap || index = 8
  | ':' :: rest => index ≠ 8 && !gap && groups (index + 1) true rest
  | first :: others =>
    let digits := ((first :: others).take 4).takeWhile isHexDigit
    index ≠ 8 && digits ≠ [] &&
      match rest : (first :: others).drop digits.length with
      | [] => gap || index = 7
      | ':' :: more => more ≠ [] && groups (index + 1) gap more
      | '.' :: _ => index ≤ 6 && isDottedTail (first :: others) && (gap || index = 6)
      | _ => false
termination_by text.length
decreasing_by
  · simp
  · have shorter := congrArg List.length rest
    simp only [List.length_drop, List.length_cons] at shorter ⊢
    omega

/-- An address of eight groups. A group may be empty at the start only as part of a double colon. -/
def isGrouped : List Char → Bool
  | ':' :: ':' :: rest => groups 1 true rest
  | ':' :: _ | [] | [_] => false
  | text => groups 0 false text

example : isQuad "0x7f.1".toList ∧ ¬ isQuad "256.1.1.1".toList ∧ ¬ isQuad "1.2.3.4.5".toList := by
  decide
example : endsInNumber "a.1.".toList ∧ ¬ endsInNumber "1.a".toList := by decide
example : isGrouped "::1".toList ∧ isGrouped "1:2:3:4:5:6:7.8.9.10".toList := by decide +kernel
example : ¬ isGrouped "1:2".toList ∧ ¬ isGrouped "::1::".toList := by decide +kernel

end LspProxy.Uri
