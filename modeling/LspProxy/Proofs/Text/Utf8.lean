import LspProxy.Text.Utf8

/-!
# Reading UTF-8 against writing it

The reader takes octets one at a time, and the encoding writes characters one at a time. The two
meet in the continuation octets of a character: `tails count code` are its last `count` octets, six
bits of the code each. A character that the reader has begun is described by what would complete it
(`Begun`): every code with the leading bits that it holds, and with a next octet in the range that it
allows, is that of a character whose octets are those read so far and the tails of that code.

From this follows that `decode?` accepts exactly the octets that `encode` writes, and answers with
the text that they were written from (`decode?_eq_some_iff`).
-/
namespace LspProxy.Text.Utf8

/-- The bits of a code above so many groups of six. -/
def above (code : Nat) : Nat → Nat
  | 0 => code
  | count + 1 => above code count / 64

@[simp] theorem above_zero (code : Nat) : above code 0 = code := rfl

@[simp] theorem above_one (code : Nat) : above code 1 = code / 64 := rfl

@[simp] theorem above_two (code : Nat) : above code 2 = code / 4096 := Nat.div_div_eq_div_mul _ 64 64

@[simp] theorem above_three (code : Nat) : above code 3 = code / 262144 := by
  have two : above code 3 = above code 2 / 64 := rfl
  rw [two, above_two, Nat.div_div_eq_div_mul]

/-- The last `count` octets of the character with this code, if it has that many after the first. -/
def tails : Nat → Nat → Bytes
  | 0, _ => []
  | count + 1, code => UInt8.ofNat (above code count % 64 + 128) :: tails count code

/-! ## First octets -/

theorem lead_two : ∀ n < 32, 2 ≤ n → lead (UInt8.ofNat (n + 192)) = .sequence ⟨n, 1, 0x80, 0xBF⟩ := by
  decide +kernel

theorem lead_three : ∀ n < 16, lead (UInt8.ofNat (n + 224)) =
    .sequence ⟨n, 2, if n = 0 then 0xA0 else 0x80, if n = 13 then 0x9F else 0xBF⟩ := by
  decide +kernel

theorem lead_four : ∀ n < 5, lead (UInt8.ofNat (n + 240)) =
    .sequence ⟨n, 3, if n = 0 then 0x90 else 0x80, if n = 4 then 0x8F else 0xBF⟩ := by
  decide +kernel

/-- An octet below 128 is a character by itself. -/
theorem lead_ascii {code : Nat} (ascii : code < 128) :
    lead (UInt8.ofNat code) = .scalar (Char.ofNat code) := by
  have number : (UInt8.ofNat code).toNat = code := by
    rw [UInt8.toNat_ofNat']
    omega
  have low : UInt8.ofNat code < 0x80 := by
    rw [UInt8.lt_iff_toNat_lt, number]
    exact ascii
  unfold lead
  rw [if_pos low, number]

/-- The octets that are no character by themselves and begin none. -/
theorem lead_refused {b : UInt8}
    (outside : (128 ≤ b.toNat ∧ b.toNat < 194) ∨ 245 ≤ b.toNat) : lead b = .refused := by
  unfold lead
  simp only [UInt8.lt_iff_toNat_lt, ← UInt8.toNat_inj, UInt8.reduceToNat]
  grind

/-- An octet by its number: a character, one of three kinds of first octets, or none of these. -/
theorem lead_cases (b : UInt8) :
    (b.toNat < 128 ∧ lead b = .scalar (Char.ofNat b.toNat)) ∨
    (∃ n, 2 ≤ n ∧ n < 32 ∧ b = UInt8.ofNat (n + 192)) ∨
    (∃ n < 16, b = UInt8.ofNat (n + 224)) ∨
    (∃ n < 5, b = UInt8.ofNat (n + 240)) ∨ lead b = .refused := by
  have small : b.toNat < 256 := b.toNat_lt
  have named (n offset : Nat) (same : n + offset = b.toNat) : b = UInt8.ofNat (n + offset) := by
    rw [same, UInt8.ofNat_toNat]
  rcases Nat.lt_or_ge b.toNat 128 with ascii | high
  · have single := lead_ascii ascii
    rw [UInt8.ofNat_toNat] at single
    exact Or.inl ⟨ascii, single⟩
  rcases Nat.lt_or_ge b.toNat 194 with refused | high
  · exact Or.inr (Or.inr (Or.inr (Or.inr (lead_refused (Or.inl ⟨‹_›, refused⟩)))))
  rcases Nat.lt_or_ge b.toNat 224 with two | high
  · exact Or.inr (Or.inl ⟨b.toNat - 192, by omega, by omega, named _ _ (by omega)⟩)
  rcases Nat.lt_or_ge b.toNat 240 with three | high
  · exact Or.inr (Or.inr (Or.inl ⟨b.toNat - 224, by omega, named _ _ (by omega)⟩))
  rcases Nat.lt_or_ge b.toNat 245 with four | high
  · exact Or.inr (Or.inr (Or.inr (Or.inl ⟨b.toNat - 240, by omega, named _ _ (by omega)⟩)))
  · exact Or.inr (Or.inr (Or.inr (Or.inr (lead_refused (Or.inr high)))))

/-- Only an octet below 128 is a character by itself. -/
theorem lead_scalar {b : UInt8} {c : Char} (leads : lead b = .scalar c) :
    b.toNat < 128 ∧ c = Char.ofNat b.toNat := by
  rcases lead_cases b with ⟨ascii, single⟩ | ⟨n, least, most, rfl⟩ | ⟨n, most, rfl⟩ | ⟨n, most, rfl⟩ |
    refused
  · rw [single, Lead.scalar.injEq] at leads
    exact ⟨ascii, leads.symm⟩
  · rw [lead_two n most least] at leads
    exact absurd leads (by simp)
  · rw [lead_three n most] at leads
    exact absurd leads (by simp)
  · rw [lead_four n most] at leads
    exact absurd leads (by simp)
  · rw [refused] at leads
    exact absurd leads (by simp)

/-! ## Characters as first octet and tails -/

/-- The number of a character is the one that it was made from. -/
theorem val_ofNat {code : Nat} (valid : code.isValidChar) : (Char.ofNat code).val.toNat = code := by
  unfold Char.ofNat
  rw [dif_pos valid]
  rfl

theorem encodeChar_ascii {code : Nat} (ascii : code < 128) :
    String.utf8EncodeChar (Char.ofNat code) = [UInt8.ofNat code] := by
  unfold String.utf8EncodeChar
  simp only [val_ofNat (Or.inl (by omega) : code.isValidChar)]
  rw [if_pos (by omega)]

/-- The octets of a character beyond ASCII, by the size of its code. -/
theorem encodeChar_beyond {code : Nat} (valid : code.isValidChar) (beyond : 128 ≤ code) :
    String.utf8EncodeChar (Char.ofNat code) =
      if code < 0x800 then UInt8.ofNat (code / 64 + 192) :: tails 1 code
      else if code < 0x10000 then UInt8.ofNat (code / 4096 + 224) :: tails 2 code
      else UInt8.ofNat (code / 262144 + 240) :: tails 3 code := by
  have bound : code < 0x110000 := by
    rcases valid with low | ⟨_, high⟩ <;> omega
  unfold String.utf8EncodeChar
  simp only [val_ofNat valid, tails, above_zero, above_one, above_two]
  split
  · omega
  split
  · rw [if_pos (by omega), Nat.mod_eq_of_lt (by omega : code / 64 < 32)]
  split
  · rw [if_neg (by omega), if_pos (by omega), Nat.mod_eq_of_lt (by omega : code / 4096 < 16)]
  · rw [if_neg (by omega), if_neg (by omega), Nat.mod_eq_of_lt (by omega : code / 262144 < 8)]

/-! ## What is written is read -/

/-- A continuation octet holds six bits. -/
theorem toNat_continuation (bits : Nat) : (UInt8.ofNat (bits % 64 + 128)).toNat = bits % 64 + 128 := by
  rw [UInt8.toNat_ofNat']
  omega

/-- Six more bits of a code. -/
theorem extended_bits (code count : Nat) :
    above code (count + 1) * 64 + above code count % 64 = above code count := by
  exact Nat.div_add_mod' _ 64

/-- The reader inside a character takes its tails, the first of which lies in the range it allows. -/
theorem scan_tails (units : List (Option Char)) (code count : Nat) {low high : UInt8}
    (first : low.toNat ≤ above code count % 64 + 128 ∧ above code count % 64 + 128 ≤ high.toNat) :
    scan ⟨units, some ⟨above code (count + 1), count + 1, low, high⟩⟩ (tails (count + 1) code) =
      ⟨some (Char.ofNat code) :: units, none⟩ := by
  induction count generalizing low high with
  | zero =>
    have whole := extended_bits code 0
    have number := toNat_continuation (above code 0)
    simp only [tails]
    generalize UInt8.ofNat (above code 0 % 64 + 128) = octet at number
    rw [← number] at first
    have bits : octet.toNat - 128 = above code 0 % 64 := by omega
    simp only [scan, List.foldl_cons, List.foldl_nil, Scan.feed, UInt8.le_iff_toNat_le, first,
      and_self, if_true, bits, whole]
    simp
  | succ count inductionHypothesis =>
    have whole := extended_bits code (count + 1)
    have number := toNat_continuation (above code (count + 1))
    have later := @inductionHypothesis 0x80 0xBF
      ⟨by simp, by have := Nat.mod_lt (above code count) (show 0 < 64 by omega); simp; omega⟩
    rw [tails]
    generalize UInt8.ofNat (above code (count + 1) % 64 + 128) = octet at number
    rw [← number] at first
    have bits : octet.toNat - 128 = above code (count + 1) % 64 := by omega
    unfold scan at later ⊢
    rw [List.foldl_cons, ← later]
    simp only [Scan.feed, UInt8.le_iff_toNat_le, first, and_self, if_true, bits, whole]
    simp

/-- The octets of a character are read as that character. -/
theorem scan_encodeChar (units : List (Option Char)) (c : Char) :
    scan ⟨units, none⟩ (String.utf8EncodeChar c) = ⟨some c :: units, none⟩ := by
  obtain ⟨code, valid, rfl⟩ : ∃ code : Nat, code.isValidChar ∧ c = Char.ofNat code :=
    ⟨c.toNat, c.valid, (Char.ofNat_toNat c).symm⟩
  have begun (first : UInt8) (pending : Pending) (others : Bytes)
      (leads : lead first = .sequence pending) :
      scan ⟨units, none⟩ (first :: others) = scan ⟨units, some pending⟩ others := by
    simp only [scan, List.foldl_cons, Scan.feed, Scan.begin, leads]
  have bound : code < 0x110000 := by
    rcases valid with low | ⟨_, high⟩ <;> omega
  rcases Nat.lt_or_ge code 128 with ascii | beyond
  · rw [encodeChar_ascii ascii]
    simp only [scan, List.foldl_cons, List.foldl_nil, Scan.feed, Scan.begin, lead_ascii ascii]
  rw [encodeChar_beyond valid beyond]
  split
  · rw [begun _ _ _ (lead_two (code / 64) (by omega) (by omega))]
    exact scan_tails units code 0 (by simp; omega)
  split
  · have leading := above_two code
    rw [begun _ _ _ (lead_three (code / 4096) (by omega)), ← leading]
    -- The narrowed ranges keep out overlong forms and surrogates, which no code of a character needs.
    refine scan_tails units code 1 ⟨?_, ?_⟩
    · split <;> simp
      omega
    · unfold Nat.isValidChar at valid
      split <;> simp <;> omega
  · have leading := above_three code
    rw [begun _ _ _ (lead_four (code / 262144) (by omega)), ← leading]
    refine scan_tails units code 2 ⟨?_, ?_⟩
    · split <;> simp
      omega
    · split <;> simp <;> omega

/-- A written text is read as it was written. -/
theorem scan_encode (units : List (Option Char)) (text : List Char) :
    scan ⟨units, none⟩ (encode text) = ⟨(text.map some).reverse ++ units, none⟩ := by
  induction text generalizing units with
  | nil => rfl
  | cons c rest inductionHypothesis =>
    have split : encode (c :: rest) = String.utf8EncodeChar c ++ encode rest := rfl
    rw [split, scan_append, scan_encodeChar, inductionHypothesis]
    simp

/-! ## What is read was written -/

/-- A character of which these octets have been read, described by what would complete it: whatever
code has the bits read so far, and the next bits in the range allowed, belongs to a character that is
written as these octets and the tails of its code. -/
structure Begun (octets : Bytes) (pending : Pending) : Prop where
  owed : 0 < pending.missing
  continued : 128 ≤ pending.low.toNat ∧ pending.high.toNat < 192
  completed : ∀ code, above code pending.missing = pending.bits →
    pending.low.toNat ≤ above code (pending.missing - 1) % 64 + 128 →
    above code (pending.missing - 1) % 64 + 128 ≤ pending.high.toNat →
    code.isValidChar ∧
      String.utf8EncodeChar (Char.ofNat code) = octets ++ tails pending.missing code

/-- An octet that opens a sequence begins a character. -/
theorem begun_of_lead {b : UInt8} {pending : Pending} (leads : lead b = .sequence pending) :
    Begun [b] pending := by
  rcases lead_cases b with ⟨_, single⟩ | ⟨n, least, most, rfl⟩ | ⟨n, most, rfl⟩ | ⟨n, most, rfl⟩ | refused
  · rw [single] at leads
    exact absurd leads (by simp)
  · rw [lead_two n most least, Lead.sequence.injEq] at leads
    subst leads
    refine ⟨by simp, by simp, fun code bits _ _ => ?_⟩
    simp only [above_one] at bits
    have valid : code.isValidChar := Or.inl (by omega)
    refine ⟨valid, ?_⟩
    rw [encodeChar_beyond valid (by omega), if_pos (by omega), bits]
    rfl
  · rw [lead_three n most, Lead.sequence.injEq] at leads
    subst leads
    refine ⟨by simp, by constructor <;> dsimp only <;> split <;> simp, fun code bits low high => ?_⟩
    simp only [Nat.reduceSub, above_one, above_two] at bits low high
    have large : 0x800 ≤ code := by
      split at low <;> simp at low <;> omega
    have valid : code.isValidChar := by
      unfold Nat.isValidChar
      split at high <;> simp at high <;> omega
    refine ⟨valid, ?_⟩
    rw [encodeChar_beyond valid (by omega), if_neg (by omega), if_pos (by omega), bits]
    rfl
  · rw [lead_four n most, Lead.sequence.injEq] at leads
    subst leads
    refine ⟨by simp, by constructor <;> dsimp only <;> split <;> simp, fun code bits low high => ?_⟩
    simp only [Nat.reduceSub, above_two, above_three] at bits low high
    have large : 0x10000 ≤ code := by
      split at low <;> simp at low <;> omega
    have valid : code.isValidChar := by
      unfold Nat.isValidChar
      split at high <;> simp at high <;> omega
    refine ⟨valid, ?_⟩
    rw [encodeChar_beyond valid (by omega), if_neg (by omega), if_neg (by omega), bits]
    rfl
  · rw [refused] at leads
    exact absurd leads (by simp)

/-- An octet that goes on with a character holds six bits of it. -/
theorem Begun.continuation_bounds {octets : Bytes} {bits missing : Nat} {low high b : UInt8}
    (begun : Begun octets ⟨bits, missing, low, high⟩) (least : low ≤ b) (most : b ≤ high) :
    128 ≤ b.toNat ∧ b.toNat < 192 := by
  have range := begun.continued
  rw [UInt8.le_iff_toNat_le] at least most
  simp only at range
  omega

/-- The last octet that was owed completes the character. -/
theorem Begun.last {octets : Bytes} {bits : Nat} {low high b : UInt8}
    (begun : Begun octets ⟨bits, 1, low, high⟩) (least : low ≤ b) (most : b ≤ high) :
    String.utf8EncodeChar (Char.ofNat (bits * 64 + (b.toNat - 0x80))) = octets ++ [b] := by
  obtain ⟨from128, below192⟩ := begun.continuation_bounds least most
  rw [UInt8.le_iff_toNat_le] at least most
  obtain ⟨_, written⟩ := begun.completed (bits * 64 + (b.toNat - 0x80)) (by simp; omega)
    (by simp; omega) (by simp; omega)
  rw [written]
  have same : (bits * 64 + (b.toNat - 0x80)) % 64 + 128 = b.toNat := by omega
  simp only [tails, above_zero, same, UInt8.ofNat_toNat]

/-- Another octet that was owed leaves the character begun. -/
theorem Begun.next {octets : Bytes} {bits missing : Nat} {low high b : UInt8}
    (begun : Begun octets ⟨bits, missing + 2, low, high⟩) (least : low ≤ b) (most : b ≤ high) :
    Begun (octets ++ [b]) ⟨bits * 64 + (b.toNat - 0x80), missing + 1, 0x80, 0xBF⟩ := by
  obtain ⟨from128, below192⟩ := begun.continuation_bounds least most
  rw [UInt8.le_iff_toNat_le] at least most
  refine ⟨by simp, by simp, fun code extended _ _ => ?_⟩
  simp only at extended
  have whole : above code (missing + 2) * 64 + above code (missing + 1) % 64 =
      above code (missing + 1) := Utf8.extended_bits code (missing + 1)
  have front : above code (missing + 2) = bits := by omega
  have six : above code (missing + 1) % 64 + 128 = b.toNat := by omega
  obtain ⟨valid, written⟩ := begun.completed code front
    (by simp only [Nat.add_one_sub_one]; omega) (by simp only [Nat.add_one_sub_one]; omega)
  refine ⟨valid, ?_⟩
  rw [written]
  simp only [tails, six, UInt8.ofNat_toNat, List.append_assoc, List.cons_append, List.nil_append]

/-- What has been read without an invalid piece: the octets of a text, and those of a character that
is not complete. -/
def Faithful (scan : Scan) (octets : Bytes) : Prop :=
  (∀ unit ∈ scan.units, unit.isSome) →
    ∃ text front, scan.units = (text.map some).reverse ∧ octets = encode text ++ front ∧
      match scan.pending with
      | none => front = []
      | some pending => Begun front pending

/-- Reading an octet between characters. -/
theorem Faithful.begin {units : List (Option Char)} {octets : Bytes}
    (faithful : Faithful ⟨units, none⟩ octets) (b : UInt8) :
    Faithful (Scan.begin units b) (octets ++ [b]) := by
  unfold Scan.begin
  cases leads : lead b with
  | refused => exact fun valid => absurd (valid none (by simp)) (by simp)
  | scalar c =>
    intro valid
    obtain ⟨text, front, same, parts, nothing⟩ := faithful fun unit member => valid unit (by simp [member])
    simp only at same nothing
    obtain ⟨ascii, rfl⟩ := lead_scalar leads
    refine ⟨text ++ [Char.ofNat b.toNat], [], by simp [same], ?_, rfl⟩
    rw [parts, nothing]
    simp [encode, encodeChar_ascii ascii]
  | sequence pending =>
    intro valid
    obtain ⟨text, front, same, parts, nothing⟩ := faithful valid
    simp only at same nothing
    refine ⟨text, [b], same, ?_, begun_of_lead leads⟩
    rw [parts, nothing, List.append_nil]

/-- Reading any octet. -/
theorem Faithful.feed {scan : Scan} {octets : Bytes} (faithful : Faithful scan octets) (b : UInt8) :
    Faithful (scan.feed b) (octets ++ [b]) := by
  obtain ⟨units, pending⟩ := scan
  cases pending with
  | none => exact faithful.begin b
  | some pending =>
    obtain ⟨bits, missing, low, high⟩ := pending
    unfold Scan.feed
    simp only
    split
    · rename_i within
      obtain ⟨least, most⟩ := within
      split
      · rename_i last
        intro valid
        obtain ⟨text, front, same, parts, begun⟩ :=
          faithful fun unit member => valid unit (by simp [member])
        simp only at same begun
        have owed := begun.owed
        obtain rfl : missing = 1 := by simp only at owed; omega
        refine ⟨text ++ [Char.ofNat (bits * 64 + (b.toNat - 0x80))], [], by simp [same], ?_, rfl⟩
        rw [parts]
        simp [encode, begun.last least most]
      · intro valid
        obtain ⟨text, front, same, parts, begun⟩ := faithful valid
        simp only at same begun
        obtain ⟨fewer, rfl⟩ : ∃ fewer, missing = fewer + 2 := ⟨missing - 2, by omega⟩
        refine ⟨text, front ++ [b], same, ?_, begun.next least most⟩
        rw [parts, List.append_assoc]
    · -- An octet that does not go on leaves an invalid piece behind, whatever it begins itself.
      intro valid
      have piece : none ∈ (Scan.begin (none :: units) b).units := by
        unfold Scan.begin
        split <;> simp
      exact absurd (valid none piece) (by simp)

theorem Faithful.scan {start : Scan} {octets : Bytes} (faithful : Faithful start octets)
    (bytes : Bytes) : Faithful (Utf8.scan start bytes) (octets ++ bytes) := by
  induction bytes generalizing start octets with
  | nil => simpa [Utf8.scan] using faithful
  | cons b rest inductionHypothesis =>
    have later := inductionHypothesis (faithful.feed b)
    rw [List.append_assoc] at later
    exact later

/-! ## The two together -/

/-- Octets are valid exactly if they are those of a text, and that text is what is read. -/
theorem decode?_eq_some_iff {bytes : Bytes} {text : List Char} :
    decode? bytes = some text ↔ bytes = encode text := by
  constructor
  · intro decoded
    have nothing : Faithful {} [] := fun _ => ⟨[], [], rfl, rfl, rfl⟩
    have faithful := nothing.scan bytes
    rw [List.nil_append] at faithful
    unfold decode? units at decoded
    simp only at decoded
    generalize Utf8.scan {} bytes = scan at decoded faithful
    obtain ⟨units, pending⟩ := scan
    cases pending with
    | some pending => simp [Scan.close] at decoded
    | none =>
      simp only [Scan.close, Option.isSome_none, Bool.false_eq_true, if_false, List.all_reverse] at decoded
      split at decoded
      · rename_i valid
        obtain ⟨read, front, same, parts, empty⟩ := faithful (List.all_eq_true.mp valid)
        simp only at same empty
        rw [Option.some.injEq, same, List.reverse_reverse, List.filterMap_map] at decoded
        have whole : read = text := by simpa using decoded
        rw [parts, empty, List.append_nil, whole]
      · exact absurd decoded (by simp)
  · rintro rfl
    unfold decode? units
    rw [show ({} : Scan) = ⟨[], none⟩ from rfl, scan_encode]
    simp [Scan.close, Function.comp_def]

/-- A text is read back from its octets. -/
theorem decode?_encode (text : List Char) : decode? (encode text) = some text :=
  decode?_eq_some_iff.mpr rfl

end LspProxy.Text.Utf8
