import LspProxy.Proofs.Text.Utf8

/-!
# How a decoding is put together

A decoded text is read off its octets piece by piece, whether they are valid or not. Two facts are needed
of this. The first unit of a decoding is that of a first piece of the octets, and what comes after it
decodes to the other units (`units_eq_cons`); if that unit is a character, the piece is how the character
is written. And an octet below 128 is a piece by itself wherever it stands: no character and no invalid
piece reaches across it (`units_around`). An octet that goes on with a character is at least 128, so the
second fact is an invariant of the reader.
-/
namespace LspProxy.Text.Utf8

/-! ## The units already read -/

theorem Scan.begin_over (units older : List (Option Char)) (b : UInt8) :
    Scan.begin (units ++ older) b =
      ⟨(Scan.begin units b).units ++ older, (Scan.begin units b).pending⟩ := by
  unfold Scan.begin
  split <;> simp

theorem Scan.feed_over (units older : List (Option Char)) (pending : Option Pending) (b : UInt8) :
    Scan.feed ⟨units ++ older, pending⟩ b =
      ⟨(Scan.feed ⟨units, pending⟩ b).units ++ older, (Scan.feed ⟨units, pending⟩ b).pending⟩ := by
  unfold Scan.feed
  cases pending with
  | none => exact begin_over units older b
  | some pending =>
    simp only
    split
    · split <;> simp
    · exact begin_over (none :: units) older b

/-- What is read does not depend on the units read before. -/
theorem scan_over (units older : List (Option Char)) (pending : Option Pending) (bytes : Bytes) :
    scan ⟨units ++ older, pending⟩ bytes =
      ⟨(scan ⟨units, pending⟩ bytes).units ++ older, (scan ⟨units, pending⟩ bytes).pending⟩ := by
  induction bytes generalizing units pending with
  | nil => rfl
  | cons b rest inductionHypothesis =>
    have first := Scan.feed_over units older pending b
    have later := inductionHypothesis (Scan.feed ⟨units, pending⟩ b).units
      (Scan.feed ⟨units, pending⟩ b).pending
    rw [← first] at later
    exact later

/-- Between characters, what follows is read as a text of its own. -/
theorem close_scan_over (older : List (Option Char)) (bytes : Bytes) :
    (scan ⟨older, none⟩ bytes).close = older.reverse ++ units bytes := by
  have split := scan_over [] older none bytes
  rw [List.nil_append] at split
  rw [split]
  unfold Scan.close units
  simp only
  split <;> simp [Scan.close, *]

/-! ## The first unit -/

/-- An octet that completes a character. -/
theorem Scan.feed_last {units : List (Option Char)} {bits : Nat} {low high b : UInt8}
    (within : low ≤ b ∧ b ≤ high) :
    Scan.feed ⟨units, some ⟨bits, 1, low, high⟩⟩ b =
      ⟨some (Char.ofNat (bits * 64 + (b.toNat - 0x80))) :: units, none⟩ := by
  simp only [Scan.feed, within, and_self, if_true, Nat.le_refl]

/-- An octet that goes on with a character. -/
theorem Scan.feed_next {units : List (Option Char)} {bits fewer : Nat} {low high b : UInt8}
    (within : low ≤ b ∧ b ≤ high) :
    Scan.feed ⟨units, some ⟨bits, fewer + 2, low, high⟩⟩ b =
      ⟨units, some ⟨bits * 64 + (b.toNat - 0x80), fewer + 1, 0x80, 0xBF⟩⟩ := by
  have more : ¬fewer + 2 ≤ 1 := by omega
  simp only [Scan.feed, within, and_self, if_true, more, if_false, Nat.add_one_sub_one]

/-- An octet that does not go on with a character leaves an invalid piece behind it. -/
theorem Scan.feed_outside {units : List (Option Char)} {pending : Pending} {b : UInt8}
    (outside : ¬(pending.low ≤ b ∧ b ≤ pending.high)) :
    Scan.feed ⟨units, some pending⟩ b = Scan.begin (none :: units) b := by
  simp only [Scan.feed, outside, if_false]

/-- Inside a character, the first unit is that character, or stands for the octets of it that there
are. -/
theorem close_scan_begun {front bytes : Bytes} {pending : Pending} (begun : Begun front pending) :
    ∃ unit piece rest, (scan ⟨[], some pending⟩ bytes).close = unit :: units rest ∧
      front ++ bytes = piece ++ rest ∧ ∀ c, unit = some c → piece = String.utf8EncodeChar c := by
  induction bytes generalizing front pending with
  | nil => exact ⟨none, front, [], rfl, rfl, nofun⟩
  | cons b rest inductionHypothesis =>
    have step : scan ⟨[], some pending⟩ (b :: rest) = scan (Scan.feed ⟨[], some pending⟩ b) rest := rfl
    by_cases within : pending.low ≤ b ∧ b ≤ pending.high
    · obtain ⟨bits, missing, low, high⟩ := pending
      obtain ⟨fewer, rfl⟩ := Nat.exists_eq_add_one.mpr begun.owed
      cases fewer with
      | zero =>
        rw [step, Scan.feed_last within, close_scan_over]
        refine ⟨_, front ++ [b], rest, rfl, by simp, ?_⟩
        intro c same
        rw [← Option.some.inj same]
        exact (begun.last within.1 within.2).symm
      | succ fewer =>
        obtain ⟨unit, piece, later, read, parts, written⟩ :=
          inductionHypothesis (begun.next within.1 within.2)
        rw [step, Scan.feed_next within]
        refine ⟨unit, piece, later, read, ?_, written⟩
        rw [← parts, List.append_assoc]
        rfl
    · -- The octet that does not go on is the first of what follows the invalid piece.
      have again : scan (Scan.begin [none] b) rest = scan ⟨[none], none⟩ (b :: rest) := rfl
      rw [step, Scan.feed_outside within, again, close_scan_over]
      exact ⟨none, front, b :: rest, rfl, rfl, nofun⟩

/-- Octets decode to the unit of a first piece of them, and to the units of what comes after it. -/
theorem units_cons (b : UInt8) (bytes : Bytes) :
    ∃ unit piece rest, units (b :: bytes) = unit :: units rest ∧ b :: bytes = piece ++ rest ∧
      ∀ c, unit = some c → piece = String.utf8EncodeChar c := by
  have step : units (b :: bytes) = (scan (Scan.begin [] b) bytes).close := rfl
  rw [step]
  unfold Scan.begin
  cases leads : lead b with
  | scalar c =>
    refine ⟨some c, [b], bytes, close_scan_over [some c] bytes, rfl, ?_⟩
    intro other same
    obtain ⟨ascii, single⟩ := lead_scalar leads
    rw [← Option.some.inj same, single, encodeChar_ascii ascii, UInt8.ofNat_toNat]
  | sequence pending => exact close_scan_begun (begun_of_lead leads)
  | refused => exact ⟨none, [b], bytes, close_scan_over [none] bytes, rfl, nofun⟩

theorem units_eq_nil_iff {bytes : Bytes} : units bytes = [] ↔ bytes = [] := by
  constructor
  · intro nothing
    cases bytes with
    | nil => rfl
    | cons b rest =>
      obtain ⟨unit, _, _, read, _⟩ := units_cons b rest
      exact absurd (read.symm.trans nothing) (List.cons_ne_nil _ _)
  · rintro rfl
    rfl

/-- The first unit of a decoding is that of a first piece of the octets. -/
theorem units_eq_cons {bytes : Bytes} {unit : Option Char} {later : List (Option Char)}
    (read : units bytes = unit :: later) :
    ∃ piece rest, bytes = piece ++ rest ∧ units rest = later ∧
      ∀ c, unit = some c → piece = String.utf8EncodeChar c := by
  cases bytes with
  | nil => exact absurd (units_eq_nil_iff.mpr rfl) (read ▸ List.cons_ne_nil _ _)
  | cons b bytes =>
    obtain ⟨first, piece, rest, found, parts, written⟩ := units_cons b bytes
    obtain ⟨rfl, others⟩ := List.cons.inj (found.symm.trans read)
    exact ⟨piece, rest, parts, others, written⟩

/-- Only no octets decode to no text. -/
theorem lossy_eq_nil_iff {bytes : Bytes} : lossy bytes = [] ↔ bytes = [] :=
  List.map_eq_nil_iff.trans units_eq_nil_iff

/-- A character at the start of a decoding is written at the start of the octets. -/
theorem lossy_eq_cons {bytes : Bytes} {c : Char} {text : List Char} (valid : c ≠ '\uFFFD')
    (read : lossy bytes = c :: text) :
    ∃ rest, bytes = String.utf8EncodeChar c ++ rest ∧ lossy rest = text := by
  obtain ⟨unit, later, found, rfl, rfl⟩ := List.map_eq_cons_iff.mp read
  obtain ⟨piece, rest, rfl, rfl, written⟩ := units_eq_cons found
  cases unit with
  | none => exact absurd rfl valid
  | some c => exact ⟨rest, by rw [written c rfl]; rfl, rfl⟩

/-- What begins with a written character decodes to that character and what comes after it. -/
theorem lossy_encodeChar (c : Char) (rest : Bytes) :
    lossy (String.utf8EncodeChar c ++ rest) = c :: lossy rest := by
  unfold lossy units
  rw [scan_append, scan_encodeChar [] c, close_scan_over]
  rfl

/-- A character below 128 in a decoding is one of the octets. -/
theorem octet_of_mem_lossy {bytes : Bytes} {c : Char} (ascii : c.toNat < 128)
    (read : c ∈ lossy bytes) : UInt8.ofNat c.toNat ∈ bytes := by
  have member : some c ∈ units bytes := by
    obtain ⟨unit, member, shown⟩ := List.mem_map.mp read
    cases unit with
    | none =>
      subst shown
      exact absurd ascii (by decide)
    | some other =>
      obtain rfl : other = c := shown
      exact member
  generalize same : units bytes = read at member
  induction read generalizing bytes with
  | nil => exact absurd member (by simp)
  | cons unit later inductionHypothesis =>
    obtain ⟨piece, rest, rfl, others, written⟩ := units_eq_cons same
    rcases List.mem_cons.mp member with rfl | member
    · have single := encodeChar_ascii ascii
      rw [Char.ofNat_toNat] at single
      rw [written c rfl, single]
      simp
    · have reading : c ∈ lossy rest := by
        unfold lossy
        rw [others]
        exact List.mem_map.mpr ⟨some c, member, rfl⟩
      exact List.mem_append_right _ (inductionHypothesis reading others member)

/-! ## Octets below 128 -/

/-- What the reader expects inside a character is an octet of at least 128. -/
def Scan.Expects (scan : Scan) : Prop := ∀ pending, scan.pending = some pending → 128 ≤ pending.low.toNat

theorem Scan.expects_begin (units : List (Option Char)) (b : UInt8) : (Scan.begin units b).Expects := by
  intro pending inside
  unfold Scan.begin at inside
  rcases leads : lead b with c | begun | _ <;> rw [leads] at inside
  · exact absurd inside (by simp)
  · obtain rfl : begun = pending := Option.some.inj inside
    exact (begun_of_lead leads).continued.1
  · exact absurd inside (by simp)

theorem Scan.Expects.feed {scan : Scan} (expects : scan.Expects) (b : UInt8) :
    (scan.feed b).Expects := by
  obtain ⟨units, pending⟩ := scan
  cases pending with
  | none => exact expects_begin units b
  | some pending =>
    by_cases within : pending.low ≤ b ∧ b ≤ pending.high
    · unfold Scan.feed
      simp only [within, and_self, if_true]
      split
      · exact nofun
      · intro later inside
        rw [← Option.some.inj inside]
        exact Nat.le_refl 128
    · rw [feed_outside within]
      exact expects_begin (none :: units) b

theorem Scan.Expects.scan {start : Scan} (expects : start.Expects) (bytes : Bytes) :
    (Utf8.scan start bytes).Expects := by
  induction bytes generalizing start with
  | nil => exact expects
  | cons b rest inductionHypothesis => exact inductionHypothesis (expects.feed b)

/-- An octet below 128 closes what was read before it. -/
theorem Scan.Expects.feed_ascii {scan : Scan} (expects : scan.Expects) {code : Nat} (ascii : code < 128) :
    scan.feed (UInt8.ofNat code) = ⟨some (Char.ofNat code) :: scan.close.reverse, none⟩ := by
  obtain ⟨units, pending⟩ := scan
  cases pending with
  | none => simp [Scan.feed, Scan.begin, lead_ascii ascii, Scan.close]
  | some pending =>
    have least : 128 ≤ pending.low.toNat := expects pending rfl
    have outside : ¬(pending.low ≤ UInt8.ofNat code ∧ UInt8.ofNat code ≤ pending.high) := by
      rw [UInt8.le_iff_toNat_le, UInt8.toNat_ofNat']
      omega
    rw [Scan.feed_outside outside]
    simp [Scan.begin, lead_ascii ascii, Scan.close]

/-- An octet below 128 is a unit by itself, and what stands around it is decoded apart. -/
theorem units_around (front back : Bytes) {code : Nat} (ascii : code < 128) :
    units (front ++ UInt8.ofNat code :: back) =
      units front ++ some (Char.ofNat code) :: units back := by
  have nothing : ({} : Scan).Expects := fun _ inside => absurd inside (by simp)
  have expects : (scan {} front).Expects := nothing.scan front
  have step : scan {} (front ++ UInt8.ofNat code :: back) =
      scan ((scan {} front).feed (UInt8.ofNat code)) back := scan_append {} front _
  unfold units
  rw [step, expects.feed_ascii ascii, close_scan_over]
  simp [units]

theorem lossy_around (front back : Bytes) {code : Nat} (ascii : code < 128) :
    lossy (front ++ UInt8.ofNat code :: back) =
      lossy front ++ Char.ofNat code :: lossy back := by
  unfold lossy
  rw [units_around front back ascii]
  simp

end LspProxy.Text.Utf8
