import LspProxy.Proofs.Disk.Climbing
import LspProxy.Proofs.Message.Documents

/-!
# Paths written as URIs and read back

The URI of a path is ASCII, and of what it is made of a reader takes nothing for more than part of a name
but the slashes and the names for the place above: every byte that would be trimmed, cut at, turned round or
unescaped is escaped (`forall_isWritten`). So the pieces between the slashes are those of the components
(`parse_ofPath`), a piece reads back as its name (`segmentBytes_piece`), and it stands for another place
only if its name does (`isParent_piece`, `isCurrent_piece`): a name such as `%2e` is escaped itself.

What a reader makes of the names for the place above is a matter of the text alone: each takes away the name
before it (`Path.collapse`). A name that could be a drive stays where it is, so the two agree as long as
there are not both in one path (`documentPath_ofPath`). A path that never climbs comes back with just its
components (`ofPath_round_trip`).
-/
namespace LspProxy

namespace Path

variable {path : Path} {name : Bytes} {names above : List Bytes}

/-! ## Components of a path made of names -/

/-- The components of a path made of names that count are these names, with a slash at its end or not. -/
theorem components_ofComponents (counts : ∀ name ∈ names, name ≠ [] ∧ name ≠ current ∧ slash ∉ name) :
    (ofComponents names).components = names ∧ (ofComponents names ++ [slash]).components = names := by
  have kept : names.filter (fun name => decide (name ≠ [] ∧ name ≠ current)) = names := by
    apply List.filter_eq_self.mpr
    intro name among
    exact decide_eq_true ⟨(counts name among).1, (counts name among).2.1⟩
  have cut := names_ofComponents fun name among => (counts name among).2.2
  constructor
  · rw [components, cut, List.filter_cons_of_neg (by simp), kept]
  · rw [components, Path.names, Text.fields_append_separator rfl, ← Path.names, cut, List.filter_append,
      List.filter_cons_of_neg (by simp), kept]
    exact List.append_nil names

end Path

namespace Uri

/-! ## What is written -/

/-- A byte that may stand in an escaped name. -/
def isWritten (b : UInt8) : Bool := b = Percent.mark || !isEscaped b

/-- What holds of the characters for the bytes that may stand in a name one by one holds of each. -/
theorem forall_isWritten (property : Char → Bool)
    (every : (List.range 256).all (fun code => !isWritten (UInt8.ofNat code) || property (Char.ofNat code)))
    {b : UInt8} (written : isWritten b = true) : property (Char.ofNat b.toNat) = true := by
  have here := List.all_eq_true.mp every b.toNat (List.mem_range.mpr b.toNat_lt)
  rw [UInt8.ofNat_toNat, written] at here
  exact here

theorem isWritten_upper {digit : Nat} (bounded : digit < 16) :
    isWritten (Text.Hexadecimal.upper digit) = true := by
  decide +revert

/-- The bytes of an escaped name. -/
theorem isWritten_encode {name : Bytes} : ∀ b ∈ Percent.encode isEscaped name, isWritten b = true := by
  intro b among
  obtain ⟨source, _, among⟩ := List.mem_flatMap.mp among
  by_cases escaped : isEscaped source = true
  · rw [if_pos escaped] at among
    have bounded : source.toNat < 256 := source.toNat_lt
    simp only [Percent.escape, List.mem_cons, List.not_mem_nil, or_false] at among
    rcases among with rfl | rfl | rfl
    · rfl
    · exact isWritten_upper (by omega)
    · exact isWritten_upper (by omega)
  · rw [if_neg escaped] at among
    obtain rfl := List.mem_singleton.mp among
    simp [isWritten, escaped]

/-- The piece of a URI that is written for a name. -/
def piece (name : Bytes) : List Char := characters (Percent.encode isEscaped name)

/-- What a piece is made of: ASCII, nothing that is trimmed, and nothing that ends a piece or the path. -/
theorem mem_piece {name : Bytes} {c : Char} (among : c ∈ piece name) :
    c.toNat < 128 ∧ isPadding c = false ∧ endsAuthority true c = false := by
  obtain ⟨b, within, rfl⟩ := List.mem_map.mp among
  have holds := forall_isWritten
    (fun c => decide (c.toNat < 128 ∧ isPadding c = false ∧ endsAuthority true c = false))
    (by decide +kernel) (isWritten_encode b within)
  exact of_decide_eq_true holds

/-- A name can be read off its piece. -/
theorem segmentBytes_piece (name : Bytes) : segmentBytes (piece name) = name := by
  have octets : Text.Utf8.encode (piece name) = Percent.encode isEscaped name := by
    rw [encode_ascii fun c among => (mem_piece among).1, piece, characters, List.map_map]
    apply List.map_id''
    intro b
    rw [Function.comp_apply, toNat_character, UInt8.ofNat_toNat]
  rw [segmentBytes, octets, decode_encode_name]

theorem piece_ne_nil {name : Bytes} (given : name ≠ []) : piece name ≠ [] :=
  fun empty => encode_ne_nil given (List.map_eq_nil_iff.mp empty)

/-- The text of the path in a URI. -/
def writtenPath (path : Path) : List Char :=
  if path.components = [] then pathText [[]] else pathText (path.components.map piece)

/-- The URI of a path is a scheme, no host, and the text of the path. -/
theorem ofPath_toList (path : Path) :
    (ofPath path).toList = "file".toList ++ ':' :: '/' :: '/' :: writtenPath path := by
  have pieces (names : List Bytes) :
      characters (Path.ofComponents (names.map (Percent.encode isEscaped))) = pathText (names.map piece) := by
    simp only [characters, Path.ofComponents, pathText, List.map_flatMap, List.flatMap_map]
    rfl
  have behind (written : Bytes) : ("file://" ++ String.ofList (characters written)).toList =
      "file".toList ++ ':' :: '/' :: '/' :: characters written := by
    simp only [String.toList_append, String.toList_ofList]
    rfl
  unfold ofPath writtenPath
  rw [behind]
  by_cases empty : path.components = []
  · simp only [empty, List.map_nil, if_true]
    rfl
  · simp only [List.map_eq_nil_iff, if_neg empty, pieces]

theorem mem_writtenPath {path : Path} {c : Char} (among : c ∈ writtenPath path) :
    c.toNat < 128 ∧ isPadding c = false ∧ endsPath c = false := by
  have inPath {pieces : List (List Char)} (among : c ∈ pathText pieces) :
      c = '/' ∨ ∃ piece ∈ pieces, c ∈ piece := by
    obtain ⟨piece, given, among⟩ := List.mem_flatMap.mp among
    exact (List.mem_cons.mp among).imp_right fun among => ⟨piece, given, among⟩
  have inPiece : c = '/' ∨ ∃ name, c ∈ piece name := by
    unfold writtenPath at among
    split at among
    · obtain slash | ⟨text, given, among⟩ := inPath among
      · exact .inl slash
      · obtain rfl := List.mem_singleton.mp given
        exact absurd among List.not_mem_nil
    · obtain slash | ⟨text, given, among⟩ := inPath among
      · exact .inl slash
      · obtain ⟨name, _, rfl⟩ := List.mem_map.mp given
        exact .inr ⟨name, among⟩
  obtain rfl | ⟨name, among⟩ := inPiece
  · decide
  · obtain ⟨ascii, visible, inside⟩ := mem_piece among
    exact ⟨ascii, visible, (Bool.or_eq_false_iff.mp inside).2⟩

/-! ## Pieces for other places -/

theorem forall_ascii (property : Char → Bool)
    (every : (List.range 128).all (fun code => property (Char.ofNat code))) {c : Char}
    (ascii : c.toNat < 128) : property c = true := by
  have here := List.all_eq_true.mp every c.toNat (List.mem_range.mpr ascii)
  rwa [Char.ofNat_toNat] at here

/-- What reads as a mark of a dot in lower case. -/
theorem of_toLower {c : Char} (ascii : c.toNat < 128) :
    (c.toLower = '.' → c = '.') ∧ (c.toLower = '%' → c = '%') ∧ (c.toLower = '2' → c = '2') ∧
      (c.toLower = 'e' → c = 'e' ∨ c = 'E') ∧ c.toLower.toLower = c.toLower := by
  have holds := forall_ascii
    (fun c => decide ((c.toLower = '.' → c = '.') ∧ (c.toLower = '%' → c = '%') ∧
      (c.toLower = '2' → c = '2') ∧ (c.toLower = 'e' → c = 'e' ∨ c = 'E') ∧ c.toLower.toLower = c.toLower))
    (by decide +kernel) ascii
  exact of_decide_eq_true holds

/-- A dot in front of a text is a byte in front of its bytes, escaped or not. -/
theorem segmentBytes_dot (rest : List Char) :
    segmentBytes ('.' :: rest) = 0x2E :: segmentBytes rest ∧
      ∀ e, e = 'e' ∨ e = 'E' → segmentBytes ('%' :: '2' :: e :: rest) = 0x2E :: segmentBytes rest := by
  constructor
  · have octets : Text.Utf8.encode ('.' :: rest) = 0x2E :: Text.Utf8.encode rest := rfl
    rw [segmentBytes, octets, Percent.decode_cons_of_ne (by decide)]
    rfl
  · rintro e (rfl | rfl)
    · rfl
    · rfl

theorem segmentBytes_of_isCurrent {text : List Char} (ascii : ∀ c ∈ text, c.toNat < 128)
    (current : isCurrent text = true) : segmentBytes text = Path.current := by
  unfold isCurrent at current
  rw [Bool.or_eq_true, decide_eq_true_eq, decide_eq_true_eq] at current
  rcases current with dot | escaped
  · obtain ⟨c, rest, rfl, single, empty⟩ := List.map_eq_cons_iff.mp dot
    obtain rfl := List.map_eq_nil_iff.mp empty
    obtain rfl := (of_toLower (ascii c List.mem_cons_self)).1 single
    rfl
  · obtain ⟨mark, rest, rfl, percent, escaped⟩ := List.map_eq_cons_iff.mp escaped
    obtain ⟨two, rest, rfl, digit, escaped⟩ := List.map_eq_cons_iff.mp escaped
    obtain ⟨e, rest, rfl, letter, empty⟩ := List.map_eq_cons_iff.mp escaped
    obtain rfl := List.map_eq_nil_iff.mp empty
    obtain rfl := (of_toLower (ascii mark (by simp))).2.1 percent
    obtain rfl := (of_toLower (ascii two (by simp))).2.2.1 digit
    exact (segmentBytes_dot []).2 e ((of_toLower (ascii e (by simp))).2.2.2.1 letter)

theorem segmentBytes_of_isParent {text : List Char} (ascii : ∀ c ∈ text, c.toNat < 128)
    (parent : isParent text = true) : segmentBytes text = Path.parent := by
  -- what stands behind the first dot stands for the current place itself
  have behind {rest : List Char} (ascii : ∀ c ∈ rest, c.toNat < 128)
      (current : isCurrent (rest.map Char.toLower) = true) : segmentBytes rest = Path.current := by
    have lower : (rest.map Char.toLower).map Char.toLower = rest.map Char.toLower := by
      rw [List.map_map]
      apply List.map_congr_left
      intro c among
      exact (of_toLower (ascii c among)).2.2.2.2
    unfold isCurrent at current
    rw [lower] at current
    exact segmentBytes_of_isCurrent ascii current
  unfold isParent at parent
  split at parent
  · rename_i lower
    obtain ⟨c, rest, rfl, dot, rfl⟩ := List.map_eq_cons_iff.mp lower
    obtain ⟨ascii', asciis⟩ := List.forall_mem_cons.mp ascii
    obtain rfl := (of_toLower ascii').1 dot
    rw [(segmentBytes_dot rest).1, behind asciis parent]
    rfl
  · rename_i lower
    obtain ⟨mark, rest, rfl, percent, lower⟩ := List.map_eq_cons_iff.mp lower
    obtain ⟨two, rest, rfl, digit, lower⟩ := List.map_eq_cons_iff.mp lower
    obtain ⟨e, rest, rfl, letter, rfl⟩ := List.map_eq_cons_iff.mp lower
    obtain rfl := (of_toLower (ascii mark (by simp))).2.1 percent
    obtain rfl := (of_toLower (ascii two (by simp))).2.2.1 digit
    have e := (segmentBytes_dot rest).2 e ((of_toLower (ascii e (by simp))).2.2.2.1 letter)
    rw [e, behind (fun c among => ascii c (by simp [among])) parent]
    rfl
  · exact absurd parent Bool.false_ne_true

/-- A piece stands for the current place only if its name does, -/
theorem isCurrent_piece {name : Bytes} : isCurrent (piece name) = true ↔ name = Path.current := by
  constructor
  · intro current
    rw [← segmentBytes_piece name, segmentBytes_of_isCurrent (fun c among => (mem_piece among).1) current]
  · rintro rfl
    decide

/-- and for the place above as well. -/
theorem isParent_piece {name : Bytes} : isParent (piece name) = true ↔ name = Path.parent := by
  constructor
  · intro parent
    rw [← segmentBytes_piece name, segmentBytes_of_isParent (fun c among => (mem_piece among).1) parent]
  · rintro rfl
    decide

/-! ## The segments of a written path -/

/-- The piece for the name could be a drive. -/
def NamesDrive (name : Bytes) : Prop := isDrive (piece name) = true

instance (name : Bytes) : Decidable (NamesDrive name) := inferInstanceAs (Decidable (_ = _))

/-- Pieces are taken in as their names are by the text alone, above whatever empty segment is left of the
slash at the start. Climbing at the end would leave an empty segment, and drives are not climbed out of. -/
theorem resolveFrom_pieces {names : List Bytes} (above : List Bytes) (bottom : List (List Char))
    (counts : Path.current ∉ names) (ends : names.getLast? ≠ some Path.parent)
    (undriven : Path.parent ∈ names → ∀ name ∈ above ++ names, ¬ NamesDrive name)
    (ground : bottom = [[]] ∨ bottom = []) :
    ∃ bottom', resolveFrom (above.map piece ++ bottom) (names.map piece) =
        (Path.collapseFrom above names).map piece ++ bottom' ∧
      (bottom' = bottom ∨ bottom' = [] ∧ Path.parent ∈ names) := by
  induction names generalizing above bottom with
  | nil => exact ⟨bottom, rfl, .inl rfl⟩
  | cons name rest inductionHypothesis =>
    obtain ⟨other, count⟩ := List.ne_and_not_mem_of_not_mem_cons counts
    have here : isCurrent (piece name) = false := by
      rw [Bool.eq_false_iff]
      exact fun current => other (isCurrent_piece.mp current).symm
    by_cases climbs : name = Path.parent
    · subst climbs
      obtain ⟨next, later, rfl⟩ : ∃ next later, rest = next :: later := by
        cases rest with
        | nil => exact absurd rfl ends
        | cons next later => exact ⟨next, later, rfl⟩
      have undriven := undriven List.mem_cons_self
      have climbed : ∃ below, ascend (above.map piece ++ bottom) = above.tail.map piece ++ below ∧
          (below = bottom ∨ below = []) := by
        cases above with
        | nil =>
          refine ⟨[], ?_, .inr rfl⟩
          rcases ground with rfl | rfl
          · rfl
          · rfl
        | cons last others =>
          have stays : ¬ isDrive (piece last) = true := undriven last (by simp)
          refine ⟨bottom, ?_, .inl rfl⟩
          rw [List.map_cons, List.cons_append, ascend, if_neg stays, List.tail_cons]
      obtain ⟨below, climbed, same⟩ := climbed
      have ground' : below = [[]] ∨ below = [] := by
        rcases same with rfl | rfl
        · exact ground
        · exact .inr rfl
      obtain ⟨bottom', read, kept⟩ := inductionHypothesis above.tail below count (by simpa using ends)
        (fun _ name among => undriven name (by
          rcases List.mem_append.mp among with among | among
          · exact List.mem_append_left _ (List.mem_of_mem_tail among)
          · exact List.mem_append_right _ (List.mem_cons_of_mem _ among))) ground'
      refine ⟨bottom', ?_, ?_⟩
      · rw [List.map_cons, resolveFrom, if_pos (isParent_piece.mpr rfl), Path.collapseFrom, if_pos rfl, ← read,
          climbed]
        rfl
      · rcases kept with rfl | ⟨empty, _⟩
        · exact same.imp_right fun empty => ⟨empty, List.mem_cons_self⟩
        · exact .inr ⟨empty, List.mem_cons_self⟩
    · have level : isParent (piece name) = false := by
        rw [Bool.eq_false_iff]
        exact fun parent => climbs (isParent_piece.mp parent)
      have ends : rest.getLast? ≠ some Path.parent := by
        cases rest with
        | nil => simp
        | cons next later => simpa using ends
      obtain ⟨bottom', read, kept⟩ := inductionHypothesis (name :: above) bottom count ends
        (fun parent drive among => undriven (List.mem_cons_of_mem _ parent) drive (by
          simp only [List.mem_append, List.mem_cons] at among ⊢
          tauto)) ground
      refine ⟨bottom', ?_, kept.imp_right fun dropped => ⟨dropped.1, List.mem_cons_of_mem _ dropped.2⟩⟩
      rw [List.map_cons, resolveFrom, level, here, Path.collapseFrom, if_neg climbs, ← read]
      rfl

/-- The pieces of a path behind its first slash are taken in as its names are by the text alone. -/
theorem segments_pieces {names : List Bytes} (counts : ∀ name ∈ names, Path.Counts name)
    (ends : names.getLast? ≠ some Path.parent)
    (undriven : Path.parent ∈ names → ∀ name ∈ names, ¬ NamesDrive name) :
    ofFilePath .absent (resolve ([] :: names.map piece)) = ⟨.absent, (Path.remaining names).map piece⟩ := by
  have current : Path.current ∉ names := fun among => (counts _ among).2 rfl
  obtain ⟨bottom, read, kept⟩ := resolveFrom_pieces [] [[]] current ends undriven (.inl rfl)
  have segments : resolve ([] :: names.map piece) = bottom ++ (Path.collapse names).map piece := by
    have reversed : bottom.reverse = bottom := by
      rcases kept with rfl | ⟨rfl, _⟩
      · rfl
      · rfl
    have first : resolveFrom [] ([] :: names.map piece) = resolveFrom [[]] (names.map piece) := rfl
    rw [List.map_nil, List.nil_append] at read
    rw [resolve, first, read, List.reverse_append, reversed, ← List.map_reverse]
    rfl
  have given : ∀ segment ∈ (Path.collapse names).map piece, segment.isEmpty = false := by
    intro segment among
    obtain ⟨name, left, rfl⟩ := List.mem_map.mp among
    rw [Bool.eq_false_iff, ne_eq, List.isEmpty_iff]
    exact piece_ne_nil (counts name (Path.mem_of_mem_collapse left)).1
  -- a drive at the very start has its mark changed, but there is none where the path climbs
  have unmarked : markDrive (bottom ++ (Path.collapse names).map piece) =
      bottom ++ (Path.collapse names).map piece := by
    rcases kept with rfl | ⟨rfl, climbs⟩
    · rfl
    · rw [List.nil_append]
      cases left : Path.collapse names with
      | nil => rfl
      | cons name others =>
        have undriven := undriven climbs name (Path.mem_of_mem_collapse (left ▸ List.mem_cons_self))
        rw [List.map_cons]
        unfold markDrive
        split
        · rename_i letter mark rest same
          rw [NamesDrive, (List.cons.inj same).1] at undriven
          rw [if_neg undriven, same]
        · rfl
  have dropped : (bottom ++ (Path.collapse names).map piece).dropWhile List.isEmpty =
      (Path.collapse names).map piece := by
    have whole : ((Path.collapse names).map piece).dropWhile List.isEmpty =
        (Path.collapse names).map piece := by
      cases left : (Path.collapse names).map piece with
      | nil => rfl
      | cons segment others =>
        rw [List.dropWhile_cons_of_neg]
        rw [given segment (left ▸ List.mem_cons_self)]
        exact Bool.false_ne_true
    rcases kept with rfl | ⟨rfl, _⟩
    · exact whole
    · exact whole
  unfold ofFilePath withoutLeadingEmpty Path.remaining
  rw [segments, unmarked, dropped, ite_self]
  cases left : Path.collapse names with
  | nil => rfl
  | cons name others => rfl

/-- So the URI of a path has no host and the segments that are left. -/
theorem parse_ofPath {path : Path} (ends : path.components.getLast? ≠ some Path.parent)
    (undriven : Path.parent ∈ path.components → ∀ name ∈ path.components, ¬ NamesDrive name) :
    parse (ofPath path).toList = .ok ⟨.absent, (Path.remaining path.components).map piece⟩ := by
  have counts : ∀ name ∈ path.components, Path.Counts name := fun name among =>
    ⟨(Path.mem_components among).1, (Path.mem_components among).2.1⟩
  have separated : Text.fields (isSlash true) (writtenPath path) =
      [] :: if path.components = [] then [[]] else path.components.map piece := by
    unfold writtenPath
    split
    · decide
    · have inside : ∀ segment ∈ [] :: path.components.map piece, ∀ c ∈ segment, isSlash true c = false := by
        intro segment among c within
        rcases List.mem_cons.mp among with rfl | among
        · exact absurd within List.not_mem_nil
        · obtain ⟨name, _, rfl⟩ := List.mem_map.mp among
          exact (Bool.or_eq_false_iff.mp (mem_piece within).2.2).1
      exact fields_pathText_of_unslashed inside
  have segments : ofFilePath .absent (readPath true (writtenPath path)) =
      ⟨.absent, (Path.remaining path.components).map piece⟩ := by
    have whole : (writtenPath path).takeWhile (fun c => !endsPath c) = writtenPath path := by
      apply takeWhile_eq_self
      intro c among
      rw [(mem_writtenPath among).2.2]
      rfl
    rw [readPath, whole, separated]
    by_cases empty : path.components = []
    · rw [empty]
      decide
    · rw [if_neg empty]
      exact segments_pieces counts ends undriven
  obtain ⟨rest, rooted⟩ : ∃ rest, writtenPath path = '/' :: rest := by
    unfold writtenPath
    split
    · exact ⟨[], rfl⟩
    · rename_i given
      obtain ⟨name, names, same⟩ := List.exists_cons_of_ne_nil given
      exact ⟨_, by rw [same]; rfl⟩
  have visible : ∀ c ∈ '/' :: '/' :: writtenPath path, isPadding c = false := by
    intro c among
    rcases List.mem_cons.mp among with rfl | among
    · decide
    · rcases List.mem_cons.mp among with rfl | among
      · decide
      · exact (mem_writtenPath among).2.1
  have scheme : Kind.ofScheme ("file".toList.map Char.toLower) = .file := by decide
  rw [ofPath_toList, parse_scheme (by decide) visible, scheme, ← segments, rooted]
  rfl

/-! ## There and back -/

/-- A path that ends like a drive gets a slash at its end, and no other path is changed. -/
theorem closeDrive_cases (path : Path) : closeDrive path = path ∨ closeDrive path = path ++ [Path.slash] := by
  unfold closeDrive
  split
  · split
    · exact .inr rfl
    · exact .inl rfl
  · exact .inl rfl

/-- The components of the path that is left. -/
theorem components_remaining {path : Path} :
    (closeDrive (Path.ofComponents (Path.remaining path.components))).components =
      Path.collapse path.components := by
  have counts : ∀ name ∈ Path.collapse path.components, name ≠ [] ∧ name ≠ Path.current ∧ Path.slash ∉ name :=
    fun name among => Path.mem_components (Path.mem_of_mem_collapse among)
  unfold Path.remaining
  by_cases empty : Path.collapse path.components = []
  · rw [if_pos empty, empty]
    decide
  · obtain ⟨closed, open_⟩ := Path.components_ofComponents counts
    rw [if_neg empty]
    rcases closeDrive_cases (Path.ofComponents (Path.collapse path.components)) with same | slashed
    · rw [same, closed]
    · rw [slashed, open_]

/-- The path that is left starts at the root. -/
theorem isAbsolute_remaining (names : List Bytes) :
    (closeDrive (Path.ofComponents (Path.remaining names))).isAbsolute = true := by
  have rooted : ∃ rest, Path.ofComponents (Path.remaining names) = Path.slash :: rest := by
    unfold Path.remaining
    split
    · exact ⟨[], rfl⟩
    · rename_i given
      obtain ⟨name, others, same⟩ := List.exists_cons_of_ne_nil given
      exact ⟨_, by rw [same]; rfl⟩
  obtain ⟨rest, rooted⟩ := rooted
  rcases closeDrive_cases (Path.ofComponents (Path.remaining names)) with same | slashed
  · rw [same, rooted]
    rfl
  · rw [slashed, rooted]
    rfl

end Uri

namespace Message

variable {path : Path}

/-- The document of a path's URI is what the text of the path leaves. The path is not one that ends above, and
if it climbs, no name in it could be a drive. -/
theorem documentPath_ofPath (ends : path.components.getLast? ≠ some Path.parent)
    (undriven : Path.parent ∈ path.components → ∀ name ∈ path.components, ¬ Uri.NamesDrive name) :
    documentPath (Uri.ofPath path) =
      .ok (Uri.closeDrive (Path.ofComponents (Path.remaining path.components))) := by
  have given : (Path.remaining path.components).map Uri.piece ≠ [] := by
    unfold Path.remaining
    split
    · nofun
    · rename_i given
      simpa using given
  refine documentPath_eq_ok_iff.mpr ⟨_, Uri.parse_ofPath ends undriven, .inl rfl, given, ?_⟩
  rw [List.map_map]
  exact congrArg (fun names => Uri.closeDrive (Path.ofComponents names))
    (List.map_id'' Uri.segmentBytes_piece _).symm

/-- A path without names for the place above survives the way into a URI and back: the URI is ASCII, reading
it gives an absolute path with just the components of the first one, and the URI belongs to no path with
other components. Nothing is asked of the bytes of the components. -/
theorem ofPath_round_trip (level : Path.parent ∉ path.components) :
    (∀ c ∈ (Uri.ofPath path).toList, c.toNat < 128) ∧
      (∃ found : Path, documentPath (Uri.ofPath path) = .ok found ∧ found.isAbsolute = true ∧
        found.components = path.components) ∧
      ∀ other : Path, Uri.ofPath other = Uri.ofPath path → other.components = path.components := by
  have ends : path.components.getLast? ≠ some Path.parent := fun last =>
    level (List.mem_of_getLast? last)
  refine ⟨?_, ⟨_, documentPath_ofPath ends fun climbs => absurd climbs level, Uri.isAbsolute_remaining _, ?_⟩,
    fun other same => Uri.ofPath_inj same⟩
  · rw [Uri.ofPath_toList]
    intro c among
    rcases List.mem_append.mp among with among | among
    · have scheme : "file".toList.all (fun c => decide (c.toNat < 128)) = true := by decide
      exact of_decide_eq_true (List.all_eq_true.mp scheme c among)
    · rcases List.mem_cons.mp among with rfl | among
      · decide
      · rcases List.mem_cons.mp among with rfl | among
        · decide
        · rcases List.mem_cons.mp among with rfl | among
          · decide
          · exact (Uri.mem_writtenPath among).1
  · rw [Uri.components_remaining, Path.collapse_level level]

/-- A path whose names hold an escape of a dot, a blank, marks of a query and a fragment, a backslash, a byte
that is no text, and a drive in its midst. -/
theorem ofPath_round_trip_odd :
    let path : Path := Bytes.ascii "/%2e/ a\t?#\\/" ++ [0xFF] ++ Bytes.ascii "/C|/%2E%2e/c:/."
    Path.parent ∉ path.components ∧
      path.components = [Bytes.ascii "%2e", Bytes.ascii " a\t?#\\", [0xFF], Bytes.ascii "C|",
        Bytes.ascii "%2E%2e", Bytes.ascii "c:"] ∧
      ∃ found : Path, documentPath (Uri.ofPath path) = .ok found ∧ found.isAbsolute = true ∧
        found.components = path.components := by
  intro path
  have level : Path.parent ∉ path.components := by decide +kernel
  exact ⟨level, by decide +kernel, (ofPath_round_trip level).2.1⟩

end Message

end LspProxy
