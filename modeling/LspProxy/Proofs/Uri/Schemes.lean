import LspProxy.Proofs.Uri.Plain

/-!
# URIs of every scheme

Which path a URI leads to depends on its host and on its segments (`LeadsTo`), and not on its scheme, but for
the way in which the scheme has these read. A plain path right behind the colon leads to itself under every
scheme but the few that have a host there (`leadsTo_rooted`); behind the name by which a machine calls itself
it does so under every scheme (`leadsTo_localhost`); and behind the name of another host it leads nowhere
(`not_leadsTo_elsewhere`), as does an opaque path (`not_leadsTo_opaque`).
-/
namespace LspProxy.Uri

/-- The URI has a path, and its host, if it has one, is this machine: so it leads to the path of its
segments. -/
def LeadsTo (text : List Char) (path : Path) : Prop :=
  ∃ uri, parse text = .ok uri ∧ (uri.host = .absent ∨ uri.host = .name localName) ∧ uri.segments ≠ [] ∧
    path = closeDrive (Path.ofComponents (uri.segments.map segmentBytes))

theorem isLocal_iff {host : Host} : host.isLocal = true ↔ host = .absent ∨ host = .name localName := by
  unfold Host.isLocal
  rw [Bool.or_eq_true, decide_eq_true_eq, decide_eq_true_eq]

/-- The path that a URI has for its reader is the one that it leads to. -/
theorem leadsTo_iff {text : List Char} {path : Path} :
    LeadsTo text path ↔ ∃ uri, parse text = .ok uri ∧ uri.toPath? = some path := by
  have toPath (uri : Uri) : uri.toPath? = some path ↔
      (uri.host = .absent ∨ uri.host = .name localName) ∧ uri.segments ≠ [] ∧
        path = closeDrive (Path.ofComponents (uri.segments.map segmentBytes)) := by
    unfold toPath?
    rw [← isLocal_iff]
    constructor
    · intro leads
      split at leads
      · rename_i here
        exact ⟨here.1, here.2, (Option.some.inj leads).symm⟩
      · exact absurd leads (by simp)
    · rintro ⟨host, segments, rfl⟩
      rw [if_pos ⟨host, segments⟩]
  constructor
  · rintro ⟨uri, parsed, leads⟩
    exact ⟨uri, parsed, (toPath uri).mpr leads⟩
  · rintro ⟨uri, parsed, leads⟩
    exact ⟨uri, parsed, (toPath uri).mp leads⟩

/-! ## Schemes -/

/-- The text of a scheme. -/
structure IsScheme (scheme : List Char) : Prop where
  letter : scheme.head?.any Char.isAlpha = true
  allowed : ∀ c ∈ scheme, isSchemeCharacter c = true

instance (scheme : List Char) : Decidable (IsScheme scheme) :=
  decidable_of_iff (scheme.head?.any Char.isAlpha = true ∧ scheme.all isSchemeCharacter = true)
    ⟨fun ⟨letter, allowed⟩ => ⟨letter, List.all_eq_true.mp allowed⟩,
      fun isScheme => ⟨isScheme.letter, List.all_eq_true.mpr isScheme.allowed⟩⟩

variable {scheme rest : List Char}

/-- A scheme is read up to its colon. -/
theorem scheme?_append (isScheme : IsScheme scheme) (rest : List Char) :
    scheme? (scheme ++ ':' :: rest) = some (scheme.map Char.toLower, rest) := by
  obtain ⟨first, later, rfl⟩ : ∃ first later, scheme = first :: later := by
    cases scheme with
    | nil => exact absurd isScheme.letter (by simp)
    | cons first later => exact ⟨first, later, rfl⟩
  have cut : ((first :: later) ++ ':' :: rest).takeWhile isSchemeCharacter = first :: later := by
    rw [List.takeWhile_append_of_pos isScheme.allowed, List.takeWhile_cons_of_neg (by decide),
      List.append_nil]
  have letter : first.isAlpha = true := by simpa using isScheme.letter
  unfold scheme?
  simp only [cut, List.drop_left']
  rw [if_pos letter]

/-- A character of a scheme is visible. -/
theorem isPadding_of_isSchemeCharacter {c : Char} (allowed : isSchemeCharacter c = true) :
    isPadding c = false := by
  by_cases plus : c = '+'
  · subst plus
    decide
  · apply isPadding_of_isPlain
    unfold isSchemeCharacter at allowed
    unfold isPlain
    simp only [Bool.or_eq_true, decide_eq_true_eq, plus, or_false] at allowed ⊢
    exact allowed.imp_left .inl

/-- A visible text is read as it is. -/
theorem clean_visible {text : List Char} (visible : ∀ c ∈ text, isPadding c = false) :
    clean text = text := by
  have kept {text : List Char} (visible : ∀ c ∈ text, isPadding c = false) :
      text.dropWhile isPadding = text := by
    cases text with
    | nil => rfl
    | cons c rest => rw [List.dropWhile_cons_of_neg (by simp [visible c List.mem_cons_self])]
  unfold clean
  rw [kept visible, kept fun c among => visible c (List.mem_reverse.mp among), List.reverse_reverse]
  apply List.filter_eq_self.mpr
  intro c among
  have visible := visible c among
  unfold isDropped
  have dropped : ∀ c ∈ ['\t', '\n', '\r'], isPadding c = true := List.all_eq_true.mp (by decide)
  by_cases drops : c ∈ ['\t', '\n', '\r']
  · exact absurd ((dropped c drops).symm.trans visible) (by decide)
  · simpa [and_assoc] using drops


section

variable {first : List Char} {others : List (List Char)}

/-! ## Authorities -/

/-- A plain host with a plain path behind it. -/
theorem takeWhile_host {host : List Char} (backslashes : Bool) (plain : ∀ c ∈ host, isPlain c = true) :
    (host ++ pathText (first :: others)).takeWhile (fun c => !endsAuthority backslashes c) = host := by
  have inside : ∀ c ∈ host, (!endsAuthority backslashes c) = true := by
    intro c among
    rw [endsAuthority_of_isPlain backslashes (plain c among)]
    rfl
  have text : pathText (first :: others) = '/' :: (first ++ pathText others) := rfl
  rw [List.takeWhile_append_of_pos inside, text, List.takeWhile_cons_of_neg (by simp [endsAuthority, isSlash]),
    List.append_nil]

theorem credentials_plain {host : List Char} (backslashes : Bool) (plain : ∀ c ∈ host, isPlain c = true) :
    credentials backslashes (host ++ pathText (first :: others)) =
      (none, host ++ pathText (first :: others)) := by
  have unsigned : ∀ c ∈ host.reverse, decide (c ≠ '@') = true := by
    intro c among
    apply decide_eq_true
    rintro rfl
    exact absurd (plain '@' (List.mem_reverse.mp among)) (by decide)
  unfold credentials
  simp only [takeWhile_host backslashes plain, takeWhile_eq_self unsigned, List.length_reverse, if_true]

theorem hostLength_plain {host : List Char} (backslashes : Bool) (plain : ∀ c ∈ host, isPlain c = true) :
    hostLength backslashes false (host ++ pathText (first :: others)) = host.length := by
  induction host with
  | nil =>
    have text : pathText (first :: others) = '/' :: (first ++ pathText others) := rfl
    rw [List.nil_append, text, hostLength, if_pos (.inr rfl)]
    rfl
  | cons c rest inductionHypothesis =>
    obtain ⟨plain', plains⟩ := List.forall_mem_cons.mp plain
    have ends := endsAuthority_of_isPlain backslashes plain'
    have other (mark : Char) (special : isPlain mark = false) : c ≠ mark := by
      rintro rfl
      exact absurd (plain'.symm.trans special) (by decide)
    rw [List.cons_append, hostLength, if_neg (by simp [ends, other ':' (by decide)]),
      if_neg (other '[' (by decide)), if_neg (other ']' (by decide)), inductionHypothesis plains]
    rfl

/-- A plain host decides on its own what an authority is; the path behind it is kept. -/
theorem readAuthority_plain {host : List Char} (wellKnown : Bool) (given : host ≠ [])
    (hosted : ∀ c ∈ host, isPlain c = true) (plain : IsPlainName first)
    (plains : ∀ name ∈ others, IsPlainName name) :
    readAuthority wellKnown (host ++ pathText (first :: others)) =
      (if wellKnown then readHost host else readOpaqueHost host).map (⟨·, first :: others⟩) := by
  have text : pathText (first :: others) = '/' :: (first ++ pathText others) := rfl
  have port : dropPort (pathText (first :: others)) = .ok (pathText (first :: others)) := rfl
  have opens : (pathText (first :: others)).head? = some '/' := rfl
  have more : (pathText (first :: others)).isEmpty = false := rfl
  have segments (backslashes : Bool) :
      readPath backslashes (dropSlash backslashes (pathText (first :: others))) = first :: others := by
    rw [text, dropSlash, if_pos (by simp [isSlash])]
    exact readPath_plain backslashes plain plains
  have named : host.isEmpty = false := by simpa using given
  unfold readAuthority
  simp only [credentials_plain wellKnown hosted, hostLength_plain wellKnown hosted, List.take_left',
    List.drop_left', named, port]
  cases wellKnown with
  | true =>
    cases readHost host with
    | error fault => rfl
    | ok host => simp [Except.map, bind, Except.bind, pure, Except.pure, segments]
  | false =>
    cases readOpaqueHost host with
    | error fault => rfl
    | ok host => simp [Except.map, bind, Except.bind, pure, Except.pure, opens, more, segments, endsPath]

/-! ## File URIs -/

/-- Plain segments are no drives. -/
theorem isDrive_plain {name : List Char} (plain : ∀ c ∈ name, isPlain c = true) : isDrive name = false := by
  unfold isDrive
  split
  · rename_i letter mark
    have among : mark ∈ [letter, mark] := by simp
    rw [(isDriveMark_of_isPlain (plain mark among)).1, Bool.and_false]
  · rename_i letter mark _ _
    exact absurd (plain '\\' (by simp)) (by decide)
  · rfl

/-- So they are kept as they are, but for an empty one before them. -/
theorem ofFilePath_plain (host : Host) (plain : IsPlainName first) :
    ofFilePath host (first :: others) = ⟨host, first :: others⟩ := by
  have drive := isDrive_plain plain.plain
  have starts : startsAtDrive (first :: others) = false := by simp [startsAtDrive, drive]
  have marked : markDrive (first :: others) = first :: others := by
    unfold markDrive
    split
    · rename_i letter mark rest same
      obtain ⟨rfl, rfl⟩ := List.cons.inj same
      rw [if_neg (by simp [drive])]
    · rfl
  have kept : withoutLeadingEmpty (first :: others) = first :: others := by
    unfold withoutLeadingEmpty
    rw [List.dropWhile_cons_of_neg (by simp [plain.nonempty])]
  simp [ofFilePath, starts, marked, kept]

theorem ofFilePath_slash (host : Host) (plain : IsPlainName first) :
    ofFilePath host ([] :: first :: others) = ⟨host, first :: others⟩ := by
  have kept : withoutLeadingEmpty ([] :: first :: others) = first :: others := by
    unfold withoutLeadingEmpty
    rw [List.dropWhile_cons_of_pos rfl, List.dropWhile_cons_of_neg (by simp [plain.nonempty])]
  simp [ofFilePath, startsAtDrive, markDrive, kept]

/-- A file URI with a plain host has this host, unless the host is this machine. -/
theorem readFileAuthority_plain {host : List Char} (given : host ≠ [])
    (hosted : ∀ c ∈ host, isPlain c = true) (plain : IsPlainName first)
    (plains : ∀ name ∈ others, IsPlainName name) :
    readFileAuthority (host ++ pathText (first :: others)) =
      (readHost host).map fun host => ⟨if host.isLocal then .absent else host, first :: others⟩ := by
  have named : host.isEmpty = false := by simpa using given
  have undriven : ¬ (host.length = 2 ∧ isDrive host = true) := by simp [isDrive_plain hosted]
  have text : pathText (first :: others) = '/' :: (first ++ pathText others) := rfl
  have behind : readPath true (dropSlash true (pathText (first :: others))) = first :: others := by
    rw [text, dropSlash, if_pos (by simp [isSlash])]
    exact readPath_plain true plain plains
  unfold readFileAuthority
  simp only [takeWhile_host true hosted, List.drop_left', if_neg undriven, named, Bool.false_eq_true,
    if_false, readPath_slash true plain plains, behind]
  cases readHost host with
  | error fault => rfl
  | ok host =>
    cases here : host.isLocal with
    | true =>
      simp [Except.map, bind, Except.bind, pure, Except.pure, here, ofFilePath_slash Host.absent plain]
    | false => simp [Except.map, bind, Except.bind, pure, Except.pure, here, ofFilePath_plain host plain]

/-! ## Plain hosts -/

/-- A plain host has the form of its lower case as a domain. -/
theorem readDomain_plain {host : List Char} (hosted : ∀ c ∈ host, isPlain c = true) {domain : List Char}
    (read : readDomain host = .ok domain) : domain = host.map Char.toLower := by
  have unmarked : Percent.decode (Text.Utf8.encode host) = Text.Utf8.encode host := by
    apply decode_unmarked
    rw [encode_ascii fun c among => isPlain_ascii (hosted c among)]
    intro b among
    obtain ⟨c, within, rfl⟩ := List.mem_map.mp among
    exact (isDriveMark_of_isPlain (hosted c within)).2.1
  have weighty : host.filter (fun c => !isIgnorable c) = host := by
    rw [List.filter_eq_self]
    intro c among
    exact forall_isPlain (fun c => !isIgnorable c) (by decide +kernel) (hosted c among)
  have forms : host.map domainForm = host.map Char.toLower := by
    apply List.map_congr_left
    intro c among
    have form := forall_isPlain (fun c => domainForm c == c.toLower) (by decide +kernel) (hosted c among)
    exact beq_iff_eq.mp form
  unfold readDomain at read
  rw [unmarked, Text.Utf8.decode?_encode] at read
  simp only [weighty, forms] at read
  split at read
  · exact absurd read (by simp)
  · exact (Except.ok.inj read).symm

/-- A host whose lower case is not the name by which a machine calls itself is another machine. -/
theorem readHost_elsewhere {host : List Char} (hosted : ∀ c ∈ host, isPlain c = true)
    (elsewhere : host.map Char.toLower ≠ localName) {read : Host} (known : readHost host = .ok read) :
    read.isLocal = false := by
  unfold readHost at known
  split at known
  · exact absurd (hosted '[' List.mem_cons_self) (by decide)
  · cases domain : readDomain host with
    | error fault =>
      rw [domain] at known
      exact absurd known (by simp [bind, Except.bind])
    | ok text =>
      obtain rfl := readDomain_plain hosted domain
      rw [domain] at known
      simp only [bind, Except.bind, pure, Except.pure] at known
      split at known
      · exact absurd known (by simp)
      · split at known
        · split at known
          · obtain rfl := Except.ok.inj known
            rfl
          · exact absurd known (by simp)
        · obtain rfl := Except.ok.inj known
          simp [Host.isLocal, elsewhere]

/-- A plain opaque host is kept as it stands. -/
theorem readOpaqueHost_plain {host : List Char} (given : host ≠ [])
    (hosted : ∀ c ∈ host, isPlain c = true) : readOpaqueHost host = .ok (.name host) := by
  have allowed : host.any isForbidden = false := by
    rw [List.any_eq_false]
    intro c among
    have allowed := forall_isPlain (fun c => !isForbidden c) (by decide +kernel) (hosted c among)
    simpa using allowed
  unfold readOpaqueHost
  split
  · exact absurd (hosted '[' List.mem_cons_self) (by decide)
  · exact absurd rfl given
  · rw [allowed]
    rfl

end

/-! ## URIs -/

section

variable {names : List (List Char)}

/-- A URI of plain parts is read as it stands. -/
theorem parse_scheme (isScheme : IsScheme scheme) (visible : ∀ c ∈ rest, isPadding c = false) :
    parse (scheme ++ ':' :: rest) =
      match Kind.ofScheme (scheme.map Char.toLower) with
      | .file => readFile rest
      | .wellKnown => readAuthority true (rest.dropWhile (isSlash true))
      | .generic => readGeneric rest := by
  have visible' : ∀ c ∈ scheme ++ ':' :: rest, isPadding c = false := by
    intro c among
    rcases List.mem_append.mp among with among | among
    · exact isPadding_of_isSchemeCharacter (isScheme.allowed c among)
    · rcases List.mem_cons.mp among with rfl | among
      · decide
      · exact visible c among
  have read := scheme?_append isScheme rest
  rw [← clean_visible visible'] at read
  unfold parse
  cases kind : Kind.ofScheme (scheme.map Char.toLower) with
  | file | wellKnown | generic => simp only [read, kind]

theorem visible_pathText (plains : ∀ name ∈ names, IsPlainName name) :
    ∀ c ∈ pathText names, isPadding c = false := by
  intro c among
  rcases mem_pathText plains among with rfl | plain
  · decide
  · exact isPadding_of_isPlain plain

/-- What a URI with plain segments and no other host leads to. -/
theorem leadsTo_of_parse {text : List Char} {host : Host} (plains : ∀ name ∈ names, IsPlainName name)
    (given : names ≠ []) (here : host.isLocal = true) (parsed : parse text = .ok ⟨host, names⟩) :
    LeadsTo text (Text.Utf8.encode (pathText names)) :=
  ⟨_, parsed, isLocal_iff.mp here, given, (pathOf_plain plains).symm⟩

/-- A plain path right behind the colon is what the URI leads to, whatever the scheme, if it is not one that
has a host there. -/
theorem leadsTo_rooted (isScheme : IsScheme scheme)
    (other : Kind.ofScheme (scheme.map Char.toLower) ≠ .wellKnown)
    (plains : ∀ name ∈ names, IsPlainName name) (given : names ≠ []) :
    LeadsTo (scheme ++ ':' :: pathText names) (Text.Utf8.encode (pathText names)) := by
  obtain ⟨first, others, rfl⟩ := List.exists_cons_of_ne_nil given
  obtain ⟨plain, plains'⟩ := List.forall_mem_cons.mp plains
  have segments (backslashes : Bool) := readPath_plain backslashes plain plains'
  have here : Host.absent.isLocal = true := rfl
  apply leadsTo_of_parse plains given here
  rw [parse_scheme isScheme (visible_pathText plains)]
  obtain ⟨letter, later, rfl⟩ := List.exists_cons_of_ne_nil plain.nonempty
  have single : isSlash true letter = false :=
    (Bool.or_eq_false_iff.mp (endsAuthority_of_isPlain true (plain.plain letter List.mem_cons_self))).1
  have text : pathText ((letter :: later) :: others) = '/' :: letter :: (later ++ pathText others) := rfl
  cases kind : Kind.ofScheme (scheme.map Char.toLower) with
  | file =>
    have dropped : dropSlash true ('/' :: letter :: (later ++ pathText others)) =
        (letter :: later) ++ pathText others := rfl
    simp only [text, readFile]
    rw [if_neg (by simp [single]), dropped, segments true, ofFilePath_plain .absent plain]
  | wellKnown => exact absurd kind other
  | generic =>
    have differs : letter ≠ '/' := by
      rintro rfl
      exact absurd single (by decide)
    simp only [text]
    unfold readGeneric
    split
    · rename_i same
      exact absurd (List.cons.inj (List.cons.inj same).2).1 differs
    · rename_i same
      obtain rfl := (List.cons.inj same).2
      rw [← segments false]
      rfl
    · rename_i _ none
      exact absurd rfl (none _)

/-- How a plain host with a plain path behind it is read. -/
theorem parse_authority {host : List Char} (isScheme : IsScheme scheme) (named : host ≠ [])
    (hosted : ∀ c ∈ host, isPlain c = true) (plains : ∀ name ∈ names, IsPlainName name)
    (given : names ≠ []) :
    parse (scheme ++ ':' :: '/' :: '/' :: (host ++ pathText names)) =
      match Kind.ofScheme (scheme.map Char.toLower) with
      | .file => (readHost host).map fun host => ⟨if host.isLocal then .absent else host, names⟩
      | .wellKnown => (readHost host).map (⟨·, names⟩)
      | .generic => (readOpaqueHost host).map (⟨·, names⟩) := by
  obtain ⟨first, others, rfl⟩ := List.exists_cons_of_ne_nil given
  obtain ⟨plain, plains'⟩ := List.forall_mem_cons.mp plains
  have visible : ∀ c ∈ '/' :: '/' :: (host ++ pathText (first :: others)), isPadding c = false := by
    have slash : isPadding '/' = false := by decide
    refine List.forall_mem_cons.mpr ⟨slash, List.forall_mem_cons.mpr ⟨slash, ?_⟩⟩
    intro c among
    rcases List.mem_append.mp among with among | among
    · exact isPadding_of_isPlain (hosted c among)
    · exact visible_pathText plains c among
  rw [parse_scheme isScheme visible]
  cases Kind.ofScheme (scheme.map Char.toLower) with
  | file =>
    rw [← readFileAuthority_plain named hosted plain plains']
    rfl
  | wellKnown =>
    obtain ⟨letter, later, rfl⟩ := List.exists_cons_of_ne_nil named
    have single : isSlash true letter = false :=
      (Bool.or_eq_false_iff.mp (endsAuthority_of_isPlain true (hosted letter List.mem_cons_self))).1
    have reached : ('/' :: '/' :: ((letter :: later) ++ pathText (first :: others))).dropWhile
        (isSlash true) = (letter :: later) ++ pathText (first :: others) := by
      rw [List.dropWhile_cons_of_pos rfl, List.dropWhile_cons_of_pos rfl, List.cons_append,
        List.dropWhile_cons_of_neg (by simp [single])]
    simp only [reached, readAuthority_plain true named hosted plain plains', if_true]
  | generic =>
    have authority := readAuthority_plain false named hosted plain plains'
    simp only [Bool.false_eq_true, if_false] at authority
    exact authority

/-- A plain path behind the name by which a machine calls itself is what the URI leads to, whatever the
scheme. -/
theorem leadsTo_localhost (isScheme : IsScheme scheme) (plains : ∀ name ∈ names, IsPlainName name)
    (given : names ≠ []) :
    LeadsTo (scheme ++ ':' :: '/' :: '/' :: (localName ++ pathText names))
      (Text.Utf8.encode (pathText names)) := by
  have named : localName ≠ [] := by decide
  have hosted : ∀ c ∈ localName, isPlain c = true := List.all_eq_true.mp (by decide)
  have domain : readHost localName = .ok (.name localName) := by cbv
  have parsed := parse_authority isScheme named hosted plains given
  rw [domain, readOpaqueHost_plain named hosted] at parsed
  cases kind : Kind.ofScheme (scheme.map Char.toLower) with
  | file =>
    rw [kind] at parsed
    exact leadsTo_of_parse plains given rfl parsed
  | wellKnown | generic =>
    rw [kind] at parsed
    exact leadsTo_of_parse plains given rfl parsed

/-- A URI that names another host leads nowhere, whatever the scheme. -/
theorem not_leadsTo_elsewhere {host : List Char} (isScheme : IsScheme scheme) (named : host ≠ [])
    (hosted : ∀ c ∈ host, isPlain c = true) (elsewhere : host.map Char.toLower ≠ localName)
    (plains : ∀ name ∈ names, IsPlainName name) (given : names ≠ []) (path : Path) :
    ¬ LeadsTo (scheme ++ ':' :: '/' :: '/' :: (host ++ pathText names)) path := by
  rintro ⟨uri, parsed, here, _⟩
  have here : uri.host.isLocal = true := isLocal_iff.mpr here
  rw [parse_authority isScheme named hosted plains given] at parsed
  have domain (same : (readHost host).map (⟨·, names⟩) = .ok uri) : False := by
    cases known : readHost host with
    | error fault =>
      rw [known] at same
      exact absurd same (by simp [Except.map])
    | ok other =>
      rw [known] at same
      obtain rfl := Except.ok.inj same
      exact absurd ((readHost_elsewhere hosted elsewhere known).symm.trans here) (by decide)
  cases kind : Kind.ofScheme (scheme.map Char.toLower) with
  | file =>
    rw [kind] at parsed
    cases known : readHost host with
    | error fault =>
      rw [known] at parsed
      exact absurd parsed (by simp [Except.map])
    | ok other =>
      have away := readHost_elsewhere hosted elsewhere known
      apply domain
      rw [← parsed, known]
      simp [Except.map, away]
  | wellKnown =>
    rw [kind] at parsed
    exact domain parsed
  | generic =>
    rw [kind, readOpaqueHost_plain named hosted] at parsed
    obtain rfl := Except.ok.inj parsed
    have same := (isLocal_iff.mp here).resolve_left nofun
    obtain rfl := Host.name.inj same
    exact elsewhere (by decide)

/-- A URI without a slash behind its colon leads nowhere, if its scheme has no syntax of its own. -/
theorem not_leadsTo_opaque {text : List Char} (read : scheme? (clean text) = some (scheme, rest))
    (generic : Kind.ofScheme scheme = .generic) (bare : rest.head? ≠ some '/') (path : Path) :
    ¬ LeadsTo text path := by
  rintro ⟨uri, parsed, _, given, _⟩
  unfold parse at parsed
  rw [read] at parsed
  simp only [generic] at parsed
  unfold readGeneric at parsed
  split at parsed
  · exact bare rfl
  · exact bare rfl
  · obtain rfl := Except.ok.inj parsed
    exact given rfl

end

end LspProxy.Uri
