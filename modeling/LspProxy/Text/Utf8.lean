import LspProxy.Bytes

/-!
# UTF-8

Octets are read one at a time. Between characters the reader holds nothing; inside a character
it holds the bits so far, the number of octets still owed and the range the next one must lie in.
An octet outside that range ends the begun sequence as one invalid unit and is itself read afresh,
so each maximal invalid piece counts once: this is the substitution practice of the Unicode
standard. `lossy` shows such a piece as U+FFFD, `decode?` refuses the whole text.

Reading is a fold, so reading a concatenation is reading its parts one after the other
(`scan_append`).
-/
namespace LspProxy.Text.Utf8

/-- A character that has been begun and is not complete. -/
structure Pending where
  /-- The bits read so far. -/
  bits : Nat
  /-- The octets still owed, at least one. -/
  missing : Nat
  /-- The least next octet. -/
  low : UInt8
  /-- The greatest next octet. -/
  high : UInt8
  deriving Repr, DecidableEq

/-- What one octet is at the start of a character. -/
inductive Lead where
  | scalar (c : Char)
  | sequence (pending : Pending)
  | refused
  deriving Repr, DecidableEq

/-- The role of an octet between characters. The narrowed ranges exclude overlong forms,
surrogates and values above U+10FFFF. -/
def lead (b : UInt8) : Lead :=
  if b < 0x80 then .scalar (Char.ofNat b.toNat)
  else if b < 0xC2 then .refused
  else if b < 0xE0 then .sequence ⟨b.toNat - 0xC0, 1, 0x80, 0xBF⟩
  else if b = 0xE0 then .sequence ⟨0, 2, 0xA0, 0xBF⟩
  else if b = 0xED then .sequence ⟨0xD, 2, 0x80, 0x9F⟩
  else if b < 0xF0 then .sequence ⟨b.toNat - 0xE0, 2, 0x80, 0xBF⟩
  else if b = 0xF0 then .sequence ⟨0, 3, 0x90, 0xBF⟩
  else if b < 0xF4 then .sequence ⟨b.toNat - 0xF0, 3, 0x80, 0xBF⟩
  else if b = 0xF4 then .sequence ⟨4, 3, 0x80, 0x8F⟩
  else .refused

/-- The units read so far, newest first: a character, or `none` for an invalid piece. -/
structure Scan where
  units : List (Option Char) := []
  pending : Option Pending := none
  deriving Repr, DecidableEq

/-- Read an octet between characters. -/
def Scan.begin (units : List (Option Char)) (b : UInt8) : Scan :=
  match lead b with
  | .scalar c => ⟨some c :: units, none⟩
  | .sequence pending => ⟨units, some pending⟩
  | .refused => ⟨none :: units, none⟩

/-- Read one octet. -/
def Scan.feed (scan : Scan) (b : UInt8) : Scan :=
  match scan.pending with
  | none => Scan.begin scan.units b
  | some ⟨bits, missing, low, high⟩ =>
    if low ≤ b ∧ b ≤ high then
      let extended := bits * 64 + (b.toNat - 0x80)
      if missing ≤ 1 then ⟨some (Char.ofNat extended) :: scan.units, none⟩
      else ⟨scan.units, some ⟨extended, missing - 1, 0x80, 0xBF⟩⟩
    else Scan.begin (none :: scan.units) b

/-- A sequence cut short by the end of the text is one invalid piece. -/
def Scan.close (scan : Scan) : List (Option Char) :=
  (if scan.pending.isSome then none :: scan.units else scan.units).reverse

/-- Read octets from a given state. -/
def scan (start : Scan) (bytes : Bytes) : Scan := bytes.foldl Scan.feed start

theorem scan_append (start : Scan) (front back : Bytes) :
    scan start (front ++ back) = scan (scan start front) back :=
  List.foldl_append

/-- The units of a whole text, in order. -/
def units (bytes : Bytes) : List (Option Char) := (scan {} bytes).close

/-- The text of the octets, each maximal invalid piece shown as U+FFFD. -/
def lossy (bytes : Bytes) : List Char := (units bytes).map (·.getD '\uFFFD')

/-- The text of the octets, if all of them are valid. -/
def decode? (bytes : Bytes) : Option (List Char) :=
  let read := units bytes
  if read.all Option.isSome then some (read.filterMap id) else none

/-- The octets of a text. -/
def encode (text : List Char) : Bytes := text.flatMap String.utf8EncodeChar

/-- The octets of a string. -/
def ofString (text : String) : Bytes := encode text.toList

/-- `lossy` as a string. -/
def display (bytes : Bytes) : String := String.ofList (lossy bytes)

/-- `decode?` as a string. -/
def toString? (bytes : Bytes) : Option String := (decode? bytes).map String.ofList

example : lossy [0x61, 0xE2, 0x82, 0xAC, 0xF0, 0x90, 0x62] = ['a', '€', '\uFFFD', 'b'] := by decide
example : lossy [0xED, 0xA0, 0x80] = ['\uFFFD', '\uFFFD', '\uFFFD'] := by decide
example : decode? [0xC0, 0x80] = none := by decide

end LspProxy.Text.Utf8
