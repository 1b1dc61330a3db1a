import LspProxy.Text.Hexadecimal

/-!
# Percent escapes

A byte may be written as a percent sign and two hexadecimal digits. `encode` writes those bytes so
that a given class asks for, `decode` reads every escape and leaves a percent sign that opens none
as it is. A class that escapes the percent sign itself loses nothing (`decode_encode`).
-/
namespace LspProxy.Uri.Percent

/-- The percent sign. -/
def mark : UInt8 := 0x25

/-- Read the escapes of a text. -/
def decode : Bytes → Bytes
  | [] => []
  | b :: rest =>
    if b = mark then
      match rest with
      | high :: low :: others =>
        match Text.Hexadecimal.digit? high, Text.Hexadecimal.digit? low with
        | some h, some l => UInt8.ofNat (h * 16 + l) :: decode others
        | _, _ => b :: decode (high :: low :: others)
      | others => b :: decode others
    else b :: decode rest

/-- One byte as an escape. -/
def escape (b : UInt8) : Bytes :=
  [mark, Text.Hexadecimal.upper (b.toNat / 16), Text.Hexadecimal.upper (b.toNat % 16)]

/-- Escape the bytes of a class. -/
def encode (escaped : UInt8 → Bool) (bytes : Bytes) : Bytes :=
  bytes.flatMap fun b => if escaped b then escape b else [b]

theorem decode_escape (b : UInt8) (rest : Bytes) : decode (escape b ++ rest) = b :: decode rest := by
  have bounded : b.toNat < 256 := b.toNat_lt
  have high : b.toNat / 16 < 16 := by omega
  have low : b.toNat % 16 < 16 := by omega
  have whole : b.toNat / 16 * 16 + b.toNat % 16 = b.toNat := by omega
  simp [escape, decode, Text.Hexadecimal.digit?_upper high, Text.Hexadecimal.digit?_upper low, whole]

theorem decode_cons_of_ne {b : UInt8} (plain : b ≠ mark) (rest : Bytes) :
    decode (b :: rest) = b :: decode rest := by
  rw [decode.eq_def]
  simp [plain]

/-- Reading undoes writing, for every class that escapes the percent sign. -/
theorem decode_encode {escaped : UInt8 → Bool} (marked : escaped mark = true) (bytes : Bytes) :
    decode (encode escaped bytes) = bytes := by
  induction bytes with
  | nil => simp [encode, decode]
  | cons b rest inductionHypothesis =>
    have unfolded : encode escaped (b :: rest) =
        (if escaped b then escape b else [b]) ++ encode escaped rest := by simp [encode]
    rw [unfolded]
    by_cases h : escaped b = true
    · rw [if_pos h, decode_escape, inductionHypothesis]
    · have other : b ≠ mark := fun same => h (same ▸ marked)
      simp [h, decode_cons_of_ne other, inductionHypothesis]

example : decode [0x25, 0x34, 0x31, 0x25, 0x7A, 0x25] = [0x41, 0x25, 0x7A, 0x25] := by decide +kernel

end LspProxy.Uri.Percent
