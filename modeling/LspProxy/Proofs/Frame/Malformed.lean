import LspProxy.Proofs.Frame.Calls
import LspProxy.Proofs.Frame.Grammar

/-!
# Headers that cannot be read

Where a token begins a message, the bytes up to the first carriage return are its header line, whatever
arrives later. The decoder asks for a length in the line, for a line feed behind the carriage return, and for
a second line ending. Once the byte that answers one of these is there and is the wrong one (`Flaw`), no
bytes behind it can mend that: a malformed header stays one (`Malformed.append`), and no later carriage
return, token or frame is ever looked at.

So a malformed header is the end of what a stream can deliver. What stands before it is said by `Begins`,
which speaks of single decoding calls and does not ask whether they go on. Two such observations of one
stream agree (`Begins.further`): that of the calls made so far, and that of all messages before the header.
The bytes that the calls have not consumed are therefore those from the header on, with the messages still
to be handed out before them.
-/
namespace LspProxy.Frame

/-! ## Flaws -/

/-- What is wrong with a header, in the bytes behind the first carriage return. -/
inductive Flaw (line : Bytes) : Bytes → Prop where
  /-- The carriage return is not followed by a line feed. -/
  | ending {b : UInt8} (rest : Bytes) (other : b ≠ Bytes.lineFeed) : Flaw line (b :: rest)
  /-- The line announces no length. -/
  | length (rest : Bytes) (unread : ∀ length, ¬ Announces line length) :
    Flaw line (Bytes.lineFeed :: rest)
  /-- The second line ending does not begin as one. -/
  | separator {b : UInt8} (rest : Bytes) (other : b ≠ Bytes.carriageReturn) :
    Flaw line (Bytes.lineFeed :: b :: rest)
  /-- The second line ending does not end as one. -/
  | separatorEnd {c : UInt8} (b : UInt8) (rest : Bytes) (other : c ≠ Bytes.lineFeed) :
    Flaw line (Bytes.lineFeed :: b :: c :: rest)

/-- A buffer that begins with the token, and with a header that has a flaw. -/
structure Malformed (buffer : Bytes) : Prop where
  opens : token <+: buffer
  flawed : ∃ line behind, Bytes.carriageReturn ∉ line ∧
    buffer = line ++ Bytes.carriageReturn :: behind ∧ Flaw line behind

/-- A flaw does not go away when bytes arrive. -/
theorem Flaw.append {line behind : Bytes} (flaw : Flaw line behind) (more : Bytes) :
    Flaw line (behind ++ more) := by
  cases flaw with
  | ending rest other => exact .ending (rest ++ more) other
  | length rest unread => exact .length (rest ++ more) unread
  | separator rest other => exact .separator (rest ++ more) other
  | separatorEnd b rest other => exact .separatorEnd b (rest ++ more) other

/-- Behind a header line with a flaw there are not two line endings. -/
theorem Flaw.ne_separated {line behind : Bytes} (flaw : Flaw line behind) {length : Nat}
    (announces : Announces line length) (tail : Bytes) :
    behind ≠ Bytes.lineFeed :: (lineEnd ++ tail) := by
  rintro rfl
  cases flaw with
  | ending rest other => exact other rfl
  | length rest unread => exact unread length announces
  | separator rest other => exact other rfl
  | separatorEnd b rest other => exact other rfl

namespace Malformed

/-- The first carriage return does not move, so a malformed header is one for good. -/
theorem append {buffer : Bytes} (malformed : Malformed buffer) (more : Bytes) :
    Malformed (buffer ++ more) := by
  obtain ⟨line, behind, unbroken, parts, flaw⟩ := malformed.flawed
  refine ⟨malformed.opens.trans (List.prefix_append _ _),
    line, behind ++ more, unbroken, ?_, flaw.append more⟩
  rw [parts, List.append_assoc, List.cons_append]

/-- There is something to a malformed header. -/
theorem length_pos {buffer : Bytes} (malformed : Malformed buffer) : 0 < buffer.length := by
  have size := malformed.opens.length_le
  have positive : 0 < token.length := by decide
  omega

/-- Nothing can be decoded: the token at the front leaves no text before it, and the line that it opens
does not begin a frame. -/
theorem decode_eq_none {buffer : Bytes} (malformed : Malformed buffer) : decode buffer = none := by
  cases decoded : decode buffer with
  | none => rfl
  | some message =>
    exfalso
    obtain ⟨body, rest⟩ := message
    cases decode_eq_some_iff.mp decoded with
    | unframed position positive first _ _ => exact first.first 0 positive malformed.opens
    | framed line unbroken announces whole =>
      obtain ⟨other, behind, otherUnbroken, parts, flaw⟩ := malformed.flawed
      have cut := congrArg (List.takeWhile (· != Bytes.carriageReturn)) (whole.symm.trans parts)
      have first := takeWhile_line unbroken (Bytes.lineFeed :: (lineEnd ++ (body ++ rest)))
      have second := takeWhile_line otherUnbroken behind
      obtain rfl : line = other := first.symm.trans (cut.trans second)
      have same := List.append_cancel_left (parts.symm.trans whole)
      exact flaw.ne_separated announces (body ++ rest) (List.tail_eq_of_cons_eq same)

end Malformed

/-! ## Messages before a place -/

/-- The data begins with these messages, decoded one after the other, and this stands behind them. -/
inductive Begins : Bytes → List Bytes → Bytes → Prop where
  | here (data : Bytes) : Begins data [] data
  | message {data body rest behind : Bytes} {bodies : List Bytes}
      (decoded : decode data = some (body, rest)) (later : Begins rest bodies behind) :
      Begins data (body :: bodies) behind

/-- A message is taken off the front of a buffer. -/
theorem decode_suffix {buffer body rest : Bytes} (decoded : decode buffer = some (body, rest)) :
    rest <:+ buffer := by
  cases decode_eq_some_iff.mp decoded with
  | unframed position _ _ _ behind => exact behind ▸ List.drop_suffix position buffer
  | framed line _ _ whole =>
    refine ⟨line ++ (lineEnd ++ (lineEnd ++ body)), ?_⟩
    rw [whole]
    simp only [List.append_assoc]

/-- A message that stands before a token is decoded as soon as the token is there: what comes behind it is
not needed to tell where the message ends. -/
theorem decode_cut {front header behind body front' : Bytes} (opens : token <+: header)
    (decoded : decode (front ++ (header ++ behind)) = some (body, front' ++ (header ++ behind))) :
    decode (front ++ header) = some (body, front' ++ header) := by
  have size := opens.length_le
  have positive : 0 < token.length := by decide
  refine decode_eq_some_iff.mpr ?_
  cases decode_eq_some_iff.mp decoded with
  | unframed position moves first text left =>
    have lengths := congrArg List.length left
    simp only [List.length_append, List.length_drop] at lengths
    have inside : position ≤ front.length := by
      have bound := first.inside
      simp only [List.length_append] at bound
      omega
    rw [List.drop_append_of_le_length inside] at left
    obtain rfl : front' = front.drop position := List.append_cancel_right left
    rw [← List.append_assoc] at first
    refine .unframed position moves (first.of_append positive ?_) ?_ ?_
    · rw [List.length_append]
      omega
    · rw [text, List.take_append_of_le_length inside, List.take_append_of_le_length inside]
    · rw [List.drop_append_of_le_length inside]
  | framed line unbroken announces whole =>
    refine .framed line unbroken announces ?_
    have ends : line ++ (lineEnd ++ (lineEnd ++ (body ++ (front' ++ (header ++ behind))))) =
        (line ++ (lineEnd ++ (lineEnd ++ (body ++ front')))) ++ (header ++ behind) := by
      simp only [List.append_assoc]
    rw [List.append_cancel_right (whole.trans ends)]
    simp only [List.append_assoc]

namespace Begins

variable {data rest final : Bytes} {bodies others : List Bytes}

/-- Before no message there is nothing. -/
theorem eq_of_nil (begins : Begins data [] rest) : data = rest := by
  cases begins
  rfl

/-- Data in which nothing can be decoded begins with no message. -/
theorem eq_nil (begins : Begins data bodies rest) (nothing : decode data = none) : bodies = [] := by
  cases begins with
  | here => rfl
  | message decoded _ => exact absurd (nothing.symm.trans decoded) nofun

/-- One message more. -/
theorem snoc (begins : Begins data bodies rest) {body behind : Bytes}
    (decoded : decode rest = some (body, behind)) : Begins data (bodies ++ [body]) behind := by
  induction begins with
  | here data => exact .message decoded (.here behind)
  | message first _ inductionHypothesis => exact .message first (inductionHypothesis decoded)

/-- Messages stay when bytes arrive, which come behind the rest. -/
theorem append (begins : Begins data bodies rest) (more : Bytes) :
    Begins (data ++ more) bodies (rest ++ more) := by
  induction begins with
  | here data => exact .here _
  | message decoded _ inductionHypothesis => exact .message (decode_append decoded more) inductionHypothesis

/-- The rest is the end of the data. -/
theorem suffix (begins : Begins data bodies rest) : rest <:+ data := by
  induction begins with
  | here data => exact List.suffix_refl data
  | message decoded _ inductionHypothesis => exact inductionHypothesis.trans (decode_suffix decoded)

/-- If nothing can be decoded behind the messages, they are all that the data drains to. -/
theorem drain_eq (begins : Begins data bodies rest) (nothing : decode rest = none) :
    drain data = (bodies, rest) := by
  induction begins with
  | here data => exact drain_of_none nothing
  | message decoded _ inductionHypothesis => rw [drain_of_some decoded, inductionHypothesis nothing]

/-- Of two observations of the same data, the one after which nothing can be decoded goes on from where the
other stops. -/
theorem further (begins : Begins data bodies rest) (whole : Begins data others final)
    (nothing : decode final = none) : ∃ later, others = bodies ++ later ∧ Begins rest later final := by
  induction begins generalizing others with
  | here data => exact ⟨others, rfl, whole⟩
  | @message data body rest _ _ decoded _ inductionHypothesis =>
    cases whole with
    | here => exact absurd (nothing.symm.trans decoded) nofun
    | @message _ other tail _ _ decoded' later =>
      obtain ⟨rfl, rfl⟩ := Prod.mk.inj (Option.some.inj (decoded.symm.trans decoded'))
      obtain ⟨more, rfl, goesOn⟩ := inductionHypothesis later
      exact ⟨more, rfl, goesOn⟩

/-- The messages before a token are there as soon as the token is. -/
theorem cut {front header behind : Bytes} (opens : token <+: header)
    (begins : Begins (front ++ (header ++ behind)) bodies (header ++ behind)) :
    Begins (front ++ header) bodies header := by
  generalize whole : front ++ (header ++ behind) = data at begins
  generalize stands : header ++ behind = rest at begins
  induction begins generalizing front with
  | here data =>
    obtain rfl : front = [] := List.append_left_eq_self.mp (whole.trans stands.symm)
    exact .here header
  | message decoded later inductionHypothesis =>
    obtain ⟨front', parts⟩ := later.suffix
    rw [← stands] at parts
    rw [← whole, ← parts] at decoded
    exact .message (decode_cut opens decoded) (inductionHypothesis parts stands)

end Begins

/-- The header stands in the data where the front ends, right behind these messages. -/
def Stands (header front : Bytes) (bodies : List Bytes) (data : Bytes) : Prop :=
  ∃ behind, data = front ++ (header ++ behind) ∧ Begins data bodies (header ++ behind)

section

variable {header front data : Bytes} {bodies : List Bytes}

/-- As soon as a malformed header is there, the messages before it are all messages, and the bytes from the
header on are left over. -/
theorem Malformed.drain_arrived (malformed : Malformed header) (stands : Stands header front bodies data)
    {arrived : Bytes} (there : header <+: arrived) : drain (front ++ arrived) = (bodies, arrived) := by
  obtain ⟨behind, rfl, begins⟩ := stands
  obtain ⟨more, rfl⟩ := there
  rw [← List.append_assoc]
  exact ((begins.cut malformed.opens).append more).drain_eq (malformed.append more).decode_eq_none

/-- The messages before a malformed header are all that will ever be. -/
theorem Malformed.drain_whole (malformed : Malformed header) (stands : Stands header front bodies data) :
    (drain data).1 = bodies := by
  obtain ⟨behind, rfl, begins⟩ := stands
  rw [begins.drain_eq (malformed.append behind).decode_eq_none]

end

/-! ## Calls -/

namespace Reader

/-- The bytes that the stream has handed out are messages that calls have handed out, and behind them those
that the reader holds. -/
def Follows (source : Source) (bodies : List Bytes) (reader : Reader) : Prop :=
  ∃ handed, source = handed ++ reader.source ∧ Begins (Source.bytes handed) bodies reader.buffer

/-- One call more: a message comes behind the others, and without one all bytes are held. -/
theorem Follows.next {source : Source} {bodies : List Bytes} {reader after : Reader} {reading : Reading}
    (follows : Follows source bodies reader) (read : reader.next = (reading, after)) :
    Follows source (bodies ++ reading.body?.toList) after := by
  obtain ⟨handed, parts, begins⟩ := follows
  obtain ⟨taken, shorter, settles⟩ := next_settles read
  refine ⟨handed ++ taken, by rw [parts, shorter, List.append_assoc], ?_⟩
  rw [Source.bytes_append]
  have held := begins.append (Source.bytes taken)
  cases reading with
  | message body => exact held.snoc settles
  | closed residual | failed failure | cancelled | abandoned =>
    have kept : after.buffer = reader.buffer ++ Source.bytes taken := settles
    simpa only [Reading.body?, Option.toList_none, List.append_nil, kept] using held

/-- After so many calls. The induction is on their number: each call is made of the reader that the others
have left. -/
theorem calls_follows (source : Source) (token : Token) (count : Nat) :
    Follows source (handedOut (calls { source, token } count))
      (latest { source, token } (calls { source, token } count)) := by
  induction count with
  | zero => exact ⟨[], rfl, .here []⟩
  | succ count inductionHypothesis =>
    rw [latest_succ, handedOut_succ]
    exact inductionHypothesis.next rfl

/-- What a call does after others, on a stream in which the header stands where the front ends, right behind
these messages. The calls before it have handed out some of them. -/
structure Stalls (header front : Bytes) (bodies : List Bytes) (source : Source) (earlier : List Bytes)
    (reading : Reading) (after : Reader) : Prop where
  /-- The stream is only read on. -/
  goesOn : after.source <:+ source
  /-- What has been handed out are the first of the messages. -/
  first : earlier ++ reading.body?.toList <+: bodies
  /-- Once all of them are handed out, no call hands out a message. -/
  silent : earlier = bodies → ∀ body, reading ≠ .message body
  /-- Of what the stream has given, everything from the header on is held, and nothing else once all of the
  messages are handed out. -/
  kept : ∀ met arrived, source = met ++ after.source → met.bytes = front ++ arrived →
    arrived <:+ after.buffer ∧ (earlier ++ reading.body?.toList = bodies → after.buffer = arrived)
  /-- The end of the stream is not found before all of the messages are handed out, and the bytes counted
  there are those from the header on. -/
  counted : ∀ met arrived residual, source = met ++ after.source → met.bytes = front ++ arrived →
    header <+: arrived → reading = .closed residual → earlier = bodies ∧ residual = arrived.length

section

variable {source : Source} {front header : Bytes} {bodies handed : List Bytes} {reader : Reader}

/-- A reader never gets past a malformed header. What has been handed out are the first of the messages
before the header, and of the bytes that have arrived, those from the header on are held. They are all that
is held once those messages are handed out, and they have been, if the header is there and nothing can be
decoded. -/
theorem Follows.stalls (malformed : Malformed header) (stands : Stands header front bodies source.bytes)
    (follows : Follows source handed reader) :
    handed <+: bodies ∧ ∀ met arrived, source = met ++ reader.source → met.bytes = front ++ arrived →
      arrived <:+ reader.buffer ∧ (handed = bodies → reader.buffer = arrived) ∧
        (header <+: arrived → decode reader.buffer = none → handed = bodies) := by
  obtain ⟨behind, parts, begins⟩ := stands
  obtain ⟨given, split, made⟩ := follows
  have idle : decode (header ++ behind) = none := (malformed.append behind).decode_eq_none
  have all := made.append (Source.bytes reader.source)
  rw [← Source.bytes_append, ← split] at all
  obtain ⟨later, rfl, left⟩ := all.further begins idle
  refine ⟨List.prefix_append _ _, fun met arrived taken came => ?_⟩
  obtain rfl : met = given := List.append_cancel_right (taken.symm.trans split)
  -- What has yet to arrive stands behind the header's beginning as well as behind the bytes held.
  have rest : arrived ++ Source.bytes reader.source = header ++ behind := by
    rw [split, Source.bytes_append, came, List.append_assoc] at parts
    exact List.append_cancel_left parts
  rw [← rest] at left
  refine ⟨?_, ?_, ?_⟩
  · obtain ⟨waiting, ends⟩ := left.suffix
    rw [← List.append_assoc] at ends
    exact ⟨waiting, List.append_cancel_right ends⟩
  · intro complete
    obtain rfl : later = [] := List.append_right_eq_self.mp complete.symm
    exact List.append_cancel_right left.eq_of_nil
  · rintro ⟨more, rfl⟩ nothing
    rw [parts] at begins
    have there : Begins met.bytes (handed ++ later) (header ++ more) := by
      rw [came, ← List.append_assoc]
      exact (begins.cut malformed.opens).append more
    obtain ⟨pending, same, goesOn⟩ := made.further there (malformed.append more).decode_eq_none
    obtain rfl : later = pending := List.append_cancel_left same
    rw [goesOn.eq_nil nothing, List.append_nil]

/-- So it is with every call, however the calls before it have ended. -/
theorem calls_stall (malformed : Malformed header) (stands : Stands header front bodies source.bytes)
    (token : Token) (count : Nat) :
    let start : Reader := { source, token }
    let call := (latest start (start.calls count)).next
    Stalls header front bodies source (handedOut (start.calls count)) call.1 call.2 := by
  intro start call
  have follows : Follows source (handedOut (start.calls count) ++ call.1.body?.toList) call.2 :=
    (calls_follows source token count).next rfl
  obtain ⟨first, keeps⟩ := follows.stalls malformed stands
  constructor
  case goesOn =>
    obtain ⟨given, split, _⟩ := follows
    exact ⟨given, split.symm⟩
  case first => exact first
  case silent =>
    intro complete body found
    have bound := first.length_le
    rw [complete, found, List.length_append] at bound
    exact absurd bound (Nat.not_succ_le_self bodies.length)
  case kept =>
    intro met arrived split came
    obtain ⟨held, rest, _⟩ := keeps met arrived split came
    exact ⟨held, rest⟩
  case counted =>
    intro met arrived residual split came there closed
    obtain ⟨_, rest, done⟩ := keeps met arrived split came
    have read : (latest start (start.calls count)).next = (.closed residual, call.2) := Prod.ext closed rfl
    obtain ⟨counted, nothing, _⟩ := next_closed_cases read
    have complete := done there nothing
    refine ⟨?_, by rw [counted, rest complete]⟩
    have noMessage : call.1.body? = none := congrArg Reading.body? closed
    rwa [noMessage, Option.toList_none, List.append_nil] at complete

end

end Reader

end LspProxy.Frame
