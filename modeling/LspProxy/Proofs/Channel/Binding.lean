import LspProxy.Proofs.Channel.Ownership

/-!
# Binding a channel wholly or not at all

Binding makes five calls that can fail, and the second of them may have removed a socket already. What keeps
this from being half done is that a path at which a socket has been found is one at which a socket can be
made: it leads, from somewhere in the tree, to an entry that is no link, and where such an entry is removed the
path leads to nothing (`clear_removes`). And a socket that has been made is found by its path, so it can be
given its permissions and its number can be looked up (`placeSocket_puts`). So binding fails in the first call
or in the third, and the third call fails only where nothing has been removed (`bindAt_all_or_nothing`). It
succeeds exactly where there is room for a socket (`bindAt_succeeds_iff`).
-/
namespace LspProxy

namespace Disk

variable {disk : Disk} {path : Path} {failure : Failure}

/-! ## Failures to follow a path -/

theorem walk_fails {follow : Bool} {links : Nat} {place : Place} {asked : Bool} {names : List Bytes}
    (failed : walk follow links place asked names = .error failure) : ∃ number, failure = .system number := by
  fun_induction walk follow links place asked names with
  | case1 | case5 | case8 | case12 => exact absurd failed (by simp)
  | case2 links place asked name rest idle inductionHypothesis => exact inductionHypothesis failed
  | case3 links place asked rest counts inductionHypothesis => exact inductionHypothesis failed
  | case4 | case6 | case9 | case10 | case13 => exact ⟨_, (Except.error.inj failed).symm⟩
  | case7 links place asked name rest counts below short listable inner met inductionHypothesis =>
    exact inductionHypothesis failed
  | case11 place asked name rest counts below short target met further left link start =>
    rename_i inductionHypothesis
    exact inductionHypothesis failed

/-- A path without a NUL is refused by the system alone. -/
theorem locate_fails {follow : Bool} (plain : ¬ path.any (· = 0) = true)
    (failed : disk.locate follow path = .error failure) : ∃ number, failure = .system number := by
  unfold locate at failed
  rw [if_neg plain] at failed
  split at failed
  · exact ⟨_, (Except.error.inj failed).symm⟩
  · split at failed
    · exact ⟨_, (Except.error.inj failed).symm⟩
    · exact walk_fails failed

theorem place_fails {single : Leaf} (plain : ¬ path.any (· = 0) = true)
    (failed : disk.place path single = .error failure) : ∃ number, failure = .system number := by
  have obstacle {failure : Failure} (system : ∃ number, failure = .system number) :
      ∃ number, disk.obstacle path failure = .system number := by
    unfold Disk.obstacle
    split
    · exact ⟨_, rfl⟩
    · exact system
  unfold Disk.place at failed
  split at failed
  · rename_i found
    exact Except.error.inj failed ▸ obstacle (locate_fails plain found)
  · unfold change at failed
    split at failed
    · exact absurd failed (by simp)
    · exact ⟨_, (Except.error.inj failed).symm⟩
  · exact Except.error.inj failed ▸ obstacle ⟨_, rfl⟩
  · exact ⟨_, (Except.error.inj failed).symm⟩

end Disk

namespace Channel

variable {disk cleared after : Disk} {path : Path} {name : String}

/-- A path that has been looked at and is short enough is an address. -/
theorem unaddressable?_eq_none (plain : ¬ path.any (· = 0) = true) (short : ¬ addressSize ≤ path.length) :
    unaddressable? path = none := by
  unfold unaddressable?
  rw [if_neg plain, if_neg short]

/-- What fails for an address is a call of the system. -/
theorem placeSocket_fails {failure : Failure} (fits : unaddressable? path = none)
    (failed : placeSocket disk path = .error failure) : ∃ number, failure = .system number := by
  have plain : ¬ path.any (· = 0) = true := by
    intro nul
    unfold unaddressable? at fits
    rw [if_pos nul] at fits
    exact absurd fits (by simp)
  unfold placeSocket at failed
  cases made : makeSocket disk path with
  | error refusal =>
    simp only [made, Bind.bind, Except.bind] at failed
    unfold makeSocket at made
    rw [fits] at made
    simp only at made
    split at made
    · exact absurd made (by simp)
    · split at made
      · exact absurd made (by simp)
      · rename_i cause put
        obtain ⟨number, rfl⟩ := Disk.place_fails plain put
        rw [← Except.error.inj failed, ← Except.error.inj made]
        split
        · exact ⟨_, rfl⟩
        · exact ⟨_, rfl⟩
  | ok first =>
    simp only [made, Bind.bind, Except.bind] at failed
    cases moded : first.setMode path socketMode with
    | error refusal =>
      simp only [moded] at failed
      rw [← Except.error.inj failed]
      unfold Disk.setMode at moded
      split at moded
      · rename_i found
        exact Except.error.inj moded ▸ Disk.locate_fails plain found
      · exact ⟨_, (Except.error.inj moded).symm⟩
      · exact absurd moded (by simp)
      · exact absurd moded (by simp)
    | ok second =>
      simp only [moded] at failed
      cases looked : socketAt second path with
      | error refusal =>
        simp only [looked] at failed
        rw [← Except.error.inj failed]
        unfold socketAt at looked
        split at looked
        · rename_i found
          exact Except.error.inj looked ▸ Disk.locate_fails plain found
        · exact absurd looked (by simp)
        · exact ⟨_, (Except.error.inj looked).symm⟩
      | ok number =>
        simp only [looked] at failed
        exact absurd failed (by simp [pure, Except.pure])

/-! ## Clearing the place -/

/-- Where a socket is found it can be removed, and the path leads to nothing then, from the tree as before. -/
theorem clear_removes {place : Disk.Place} {last : Bytes} {socket : Nat} (distinct : disk.root.Distinct)
    (found : disk.locate false path = .ok (.leaf place last (.socket socket))) :
    ∃ cleared place', (clear disk path).value = .ok cleared ∧
      disk.Removes cleared last place.location (.socket socket) ∧ cleared.origin? path ≠ none ∧
      cleared.locate false path = .ok (.vacant place' last false) ∧ place'.location = place.location := by
  obtain ⟨cleared, removed, removes⟩ := Disk.remove_removes distinct found trivial
  have starts := (Disk.locate_leaf_sound found).1
  have same : cleared.working = disk.working ∧ cleared.removed = disk.removed := by
    rw [removes.others]
    exact ⟨rfl, rfl⟩
  have differ : Disk.DifferAt last place.location disk.root cleared.root :=
    ⟨removes.elsewhere, by rw [removes.stood]; trivial, by rw [removes.gone]; trivial⟩
  obtain ⟨final, sound, root, location, settled⟩ :=
    Disk.locate_settles differ same.1 same.2 starts found ⟨rfl, rfl⟩
  have value : (clear disk path).value = .ok cleared := by
    unfold clear
    rw [found]
    exact removed
  have gone : final.folder.find? last = none := by
    have seen := removes.gone
    rw [← root, ← location, Disk.Matches.sight? sound] at seen
    exact Option.map_eq_none_iff.mp seen
  refine ⟨cleared, final, value, removes, ?_, ?_, location⟩
  · exact fun stays => starts (Disk.origin?_eq_none_of_removed same.2.symm stays)
  · rw [settled]
    unfold Disk.Place.settle
    rw [gone]

/-! ## What binding does -/

/-- The path leads to something that is no socket. -/
def Taken : Disk.Target → Prop
  | .folder _ _ => True
  | .leaf _ _ (.socket _) => False
  | .leaf _ _ _ => True
  | .vacant _ _ _ => False

/-- No socket that is seen has a number that is still to be given. -/
def Counted (disk : Disk) : Prop :=
  ∀ last names number, disk.root.sight? last names = some (.leaf (.socket number)) → number < disk.nextSocket

/-- A listener is bound under this name in the folder at this location: the entry there, and what is known of
the new socket, is all that changes. -/
structure Bound (disk : Disk) (listener : Listener) (after : Disk) (last : Bytes) (location : List Bytes) :
    Prop where
  /-- Nothing was at the path before, or a socket. -/
  room : ∃ place, place.location = location ∧
    (disk.locate false listener.path = .ok (.vacant place last false) ∨
      ∃ number, disk.locate false listener.path = .ok (.leaf place last (.socket number)))
  leads : ∀ follow, ∃ place, place.location = location ∧
    after.locate follow listener.path = .ok (.leaf place last (.socket listener.socket))
  elsewhere : ∀ name names, (name, names) ≠ (last, location) →
    after.root.sight? name names = disk.root.sight? name names
  new : listener.socket = disk.nextSocket
  mode : after.mode listener.socket = socketMode
  modes : ∀ number, number ≠ listener.socket → after.mode number = disk.mode number
  others : after = { disk with root := after.root, nextSocket := disk.nextSocket + 1, modes := after.modes }

namespace Bound

variable {listener : Listener} {last : Bytes} {location : List Bytes}

/-- The socket is seen where the path leads. -/
theorem stands (bound : Bound disk listener after last location) :
    after.root.sight? last location = some (.leaf (.socket listener.socket)) := by
  obtain ⟨place, rfl, leads⟩ := bound.leads false
  exact Disk.locate_leaf_seen leads

/-- The path starts in the tree. -/
theorem starts (bound : Bound disk listener after last location) : disk.origin? listener.path ≠ none := by
  have same : after.removed = disk.removed := by rw [bound.others]
  obtain ⟨_, _, leads⟩ := bound.leads false
  exact fun stays => (Disk.locate_leaf_sound leads).1 (Disk.origin?_eq_none_of_removed same stays)

/-- The listener's number is one that no socket had. -/
theorem fresh (bound : Bound disk listener after last location) (counted : Counted disk) (name : Bytes)
    (names : List Bytes) : disk.root.sight? name names ≠ some (.leaf (.socket listener.socket)) := by
  intro seen
  have earlier := counted name names _ seen
  rw [bound.new] at earlier
  exact absurd earlier (Nat.lt_irrefl _)

/-- Numbers go on being given in order. -/
theorem counted (bound : Bound disk listener after last location) (counted : Counted disk) : Counted after := by
  intro name names number seen
  have next : after.nextSocket = disk.nextSocket + 1 := by rw [bound.others]
  rw [next]
  by_cases same : (name, names) = (last, location)
  · obtain ⟨rfl, rfl⟩ := Prod.mk.inj same
    obtain rfl := Leaf.socket.inj (Entry.leaf.inj (Option.some.inj (seen.symm.trans bound.stands)))
    rw [bound.new]
    exact Nat.lt_succ_self _
  · rw [bound.elsewhere name names same] at seen
    exact Nat.lt_succ_of_lt (counted name names number seen)

/-- A socket that is put where nothing was. -/
theorem of_vacant {place : Disk.Place} (name : String) (starts : disk.origin? path ≠ none)
    (fits : unaddressable? path = none) (found : disk.locate false path = .ok (.vacant place last false)) :
    ∃ after, placeSocket disk path = .ok (disk.nextSocket, after) ∧
      Bound disk ⟨name, path, disk.nextSocket⟩ after last place.location := by
  obtain ⟨middle, final, _, placed, puts, leads, location⟩ := placeSocket_puts starts fits found
  have modes : middle.modes = disk.modes := by rw [puts.others]
  refine ⟨withSocket disk middle, placed, ⟨place, rfl, .inl found⟩, ?leads, puts.elsewhere, rfl, ?mode, ?modes,
    ?others⟩
  case leads =>
    rintro (_ | _)
    · exact ⟨final, location, leads⟩
    · exact ⟨final, location, Disk.locate_followed leads trivial⟩
  case mode => simp [Disk.mode, withSocket]
  case modes =>
    intro number other
    simp [Disk.mode, withSocket, modes, Ne.symm other]
  case others =>
    rw [withSocket, puts.others]

/-- Removing a leftover socket first makes no difference anywhere else. -/
theorem of_removed {place : Disk.Place} {number : Nat}
    (removes : disk.Removes cleared last location (.socket number))
    (found : disk.locate false listener.path = .ok (.leaf place last (.socket number)))
    (here : place.location = location) (bound : Bound cleared listener after last location) :
    Bound disk listener after last location where
  room := ⟨place, here, .inr ⟨number, found⟩⟩
  leads := bound.leads
  elsewhere name names away := (bound.elsewhere name names away).trans (removes.elsewhere name names away)
  new := by rw [bound.new, removes.others]
  mode := bound.mode
  modes other differs := by
    rw [bound.modes other differs, removes.others]
    rfl
  others := by
    rw [bound.others, removes.others]

end Bound

/-- Where clearing succeeds, the path is looked at first, and has no NUL. -/
theorem clear_plain (done : (clear disk path).value = .ok cleared) : ¬ path.any (· = 0) = true := by
  intro nul
  have failed : disk.locate false path = .error Failure.nulInPath := if_pos nul
  have other : Failure.nulInPath.cause ≠ .notFound := by decide
  unfold clear at done
  rw [failed, Log.Logged.value_pure, if_neg other] at done
  exact absurd done (by simp)

/-- What keeps a place from being cleared is no matter of addresses. -/
theorem clear_fails {failure : Failure} (distinct : disk.root.Distinct)
    (failed : (clear disk path).value = .error failure) :
    failure ≠ nulInAddress ∧ failure ≠ addressTooLong := by
  cases found : disk.locate false path with
  | error refusal =>
    unfold clear at failed
    rw [found, Log.Logged.value_pure] at failed
    split at failed
    · exact absurd failed (by simp)
    · obtain rfl := Except.error.inj failed
      by_cases nul : path.any (· = 0) = true
      · obtain rfl := Except.error.inj (found.symm.trans (if_pos nul))
        decide
      · obtain ⟨number, rfl⟩ := Disk.locate_fails nul found
        exact ⟨nofun, nofun⟩
  | ok target =>
    cases target with
    | folder place listable =>
      unfold clear at failed
      rw [found] at failed
      obtain rfl := Except.error.inj failed
      decide
    | vacant place last slashed =>
      unfold clear at failed
      rw [found] at failed
      exact absurd failed (by simp)
    | leaf place last single =>
      cases single with
      | socket number =>
        obtain ⟨cleared, _, value, _⟩ := clear_removes distinct found
        exact absurd (failed.symm.trans value) (by simp)
      | file | link | device =>
        unfold clear at failed
        rw [found] at failed
        obtain rfl := Except.error.inj failed
        decide

/-- What binding at a path leaves behind: the file system as it was and the reason, or a listener with a new
socket. -/
def Outcome (disk : Disk) (name : String) (path : Path) : Except Fault Listener × Disk → Prop
  | (.error fault, after) => after = disk ∧
    (fault = .pathTooLong path path.length addressSize ∧ addressSize ≤ path.length ∨
      ∃ failure, fault = .binding path failure ∧ path.length < addressSize ∧ failure ≠ nulInAddress ∧
        failure ≠ addressTooLong)
  | (.ok listener, after) => path.length < addressSize ∧ listener.name = name ∧ listener.path = path ∧
    ∃ last location, Bound disk listener after last location

theorem outcome_refused {failure : Failure} (short : ¬ addressSize ≤ path.length)
    (other : failure ≠ nulInAddress ∧ failure ≠ addressTooLong) :
    Outcome disk name path (.error (.binding path failure), disk) :=
  ⟨rfl, .inr ⟨failure, rfl, Nat.lt_of_not_le short, other⟩⟩

/-- Where clearing leaves the files alone, making the socket decides alone. -/
theorem outcome_of_untouched (short : ¬ addressSize ≤ path.length) (fits : unaddressable? path = none) :
    Outcome disk name path
      (match placeSocket disk path with
      | .error failure => (.error (.binding path failure), disk)
      | .ok (socket, after) => (.ok { name, path, socket }, after)) := by
  cases placed : placeSocket disk path with
  | error failure =>
    obtain ⟨number, rfl⟩ := placeSocket_fails fits placed
    exact outcome_refused short ⟨nofun, nofun⟩
  | ok pair =>
    obtain ⟨_, starts, middle, put, _⟩ := placeSocket_cases placed
    obtain ⟨place, last, found, _⟩ := Disk.place_cases put
    obtain ⟨after, placed', bound⟩ := Bound.of_vacant name starts fits found
    obtain rfl := Except.ok.inj (placed'.symm.trans placed)
    exact ⟨Nat.lt_of_not_le short, rfl, rfl, last, place.location, bound⟩

/-- Where a path leads to a socket, a bind succeeds and puts its own there. -/
theorem bindAt_takes_socket {place : Disk.Place} {last : Bytes} {number : Nat} (distinct : disk.root.Distinct)
    (name : String) (short : path.length < addressSize)
    (found : disk.locate false path = .ok (.leaf place last (.socket number))) :
    ∃ after, (bindAt disk name path).value = (.ok ⟨name, path, disk.nextSocket⟩, after) ∧
      Bound disk ⟨name, path, disk.nextSocket⟩ after last place.location := by
  have fitting := Nat.not_le_of_lt short
  obtain ⟨cleared, place', value, removes, starts, vacant, location⟩ := clear_removes distinct found
  obtain ⟨after, placed, bound⟩ :=
    Bound.of_vacant name starts (unaddressable?_eq_none (clear_plain value) fitting) vacant
  have next : cleared.nextSocket = disk.nextSocket := by rw [removes.others]
  rw [location, next] at bound
  rw [next] at placed
  refine ⟨after, ?_, bound.of_removed removes found rfl⟩
  rw [bindAt_short fitting, value]
  simp only [placed]

theorem bindAt_outcome (distinct : disk.root.Distinct) (name : String) (path : Path) :
    Outcome disk name path (bindAt disk name path).value := by
  by_cases long : addressSize ≤ path.length
  · unfold bindAt
    rw [if_pos long]
    exact ⟨rfl, .inl ⟨rfl, long⟩⟩
  by_cases leftover : ∃ place last number, disk.locate false path = .ok (.leaf place last (.socket number))
  · obtain ⟨place, last, number, found⟩ := leftover
    have short := Nat.lt_of_not_le long
    obtain ⟨after, value, bound⟩ := bindAt_takes_socket distinct name short found
    rw [value]
    exact ⟨short, rfl, rfl, last, place.location, bound⟩
  rw [bindAt_short long]
  cases done : (clear disk path).value with
  | error failure => exact outcome_refused long (clear_fails distinct done)
  | ok cleared =>
    rcases clear_cleared done with rfl | ⟨found, _⟩
    · exact outcome_of_untouched long (unaddressable?_eq_none (clear_plain done) long)
    · exact absurd found leftover

/-- Where a path from the tree leads to nothing, a bind succeeds. -/
theorem bindAt_fills_vacancy {place : Disk.Place} {last : Bytes} (name : String)
    (short : path.length < addressSize) (starts : disk.origin? path ≠ none)
    (found : disk.locate false path = .ok (.vacant place last false)) :
    ∃ after, (bindAt disk name path).value = (.ok ⟨name, path, disk.nextSocket⟩, after) := by
  have fitting := Nat.not_le_of_lt short
  have untouched : (clear disk path).value = .ok disk := by
    unfold clear
    rw [found]
    rfl
  obtain ⟨after, placed, _⟩ :=
    Bound.of_vacant name starts (unaddressable?_eq_none (clear_plain untouched) fitting) found
  refine ⟨after, ?_⟩
  rw [bindAt_short fitting, untouched]
  simp only [placed]

/-- There is room for a channel at a path if the path is short enough and leads, from somewhere in the tree, to
nothing or to a socket. -/
def Room (disk : Disk) (path : Path) : Prop :=
  path.length < addressSize ∧ disk.origin? path ≠ none ∧ ∃ place last,
    disk.locate false path = .ok (.vacant place last false) ∨
      ∃ number, disk.locate false path = .ok (.leaf place last (.socket number))

theorem bindAt_succeeds_iff (distinct : disk.root.Distinct) (name : String) (path : Path) :
    (∃ listener after, (bindAt disk name path).value = (.ok listener, after)) ↔ Room disk path := by
  constructor
  · rintro ⟨listener, after, value⟩
    have outcome := bindAt_outcome distinct name path
    rw [value] at outcome
    obtain ⟨short, _, rfl, last, location, bound⟩ := outcome
    obtain ⟨place, _, room⟩ := bound.room
    exact ⟨short, bound.starts, place, last, room⟩
  · rintro ⟨short, starts, place, last, vacant | ⟨number, socket⟩⟩
    · exact ⟨_, bindAt_fills_vacancy name short starts vacant⟩
    · obtain ⟨after, value, _⟩ := bindAt_takes_socket distinct name short socket
      exact ⟨_, after, value⟩

/-- In every file system and at every path, binding a channel succeeds wholly or changes nothing, and it
succeeds where there is room. A path that does not fit into an address is refused before anything is looked at,
and an address is made of no path that has none. What stands at the path and is no socket stays there. -/
theorem bindAt_all_or_nothing (distinct : disk.root.Distinct) (name : String) (path : Path) :
    Outcome disk name path (bindAt disk name path).value ∧
      ((∃ listener after, (bindAt disk name path).value = (.ok listener, after)) ↔ Room disk path) ∧
      (addressSize ≤ path.length →
        bindAt disk name path = return (.error (.pathTooLong path path.length addressSize), disk)) ∧
      (path.length < addressSize → ∀ cleared, (clear disk path).value = .ok cleared →
        unaddressable? path = none) ∧
      (path.length < addressSize → ∀ target, disk.locate false path = .ok target → Taken target →
        (bindAt disk name path).value = (.error (.binding path occupied), disk)) := by
  refine ⟨bindAt_outcome distinct name path, bindAt_succeeds_iff distinct name path, ?_, ?_, ?_⟩
  · intro long
    unfold bindAt
    rw [if_pos long]
  · intro short cleared done
    exact unaddressable?_eq_none (clear_plain done) (Nat.not_le_of_lt short)
  · intro short target found taken
    have refused : (clear disk path).value = .error occupied := by
      unfold clear
      rw [found]
      cases target with
      | folder => rfl
      | vacant => exact taken.elim
      | leaf place last single =>
        cases single with
        | socket => exact taken.elim
        | file | link | device => rfl
    rw [bindAt_short (Nat.not_le_of_lt short), refused]

/-- A leftover socket, and a link that leads nowhere. -/
def leftovers : Disk where
  root := .leaf (Bytes.ascii "s") (.socket 0) (.leaf (Bytes.ascii "l") (.link (Bytes.ascii "/nowhere")) .empty)
  nextSocket := 1

/-- A channel takes the place of the socket, and none can be bound at the link. -/
theorem leftovers_bound :
    leftovers.root.Distinct ∧
      (bindAt leftovers "a" (Bytes.ascii "/s")).value =
        (.ok ⟨"a", Bytes.ascii "/s", 1⟩,
          { root := .leaf (Bytes.ascii "l") (.link (Bytes.ascii "/nowhere"))
              (.leaf (Bytes.ascii "s") (.socket 1) .empty)
            nextSocket := 2
            modes := [(1, 0o600)] }) ∧
      Outcome leftovers "a" (Bytes.ascii "/s") (bindAt leftovers "a" (Bytes.ascii "/s")).value ∧
      (bindAt leftovers "a" (Bytes.ascii "/l")).value =
        (.error (.binding (Bytes.ascii "/l") occupied), leftovers) := by
  have distinct : leftovers.root.Distinct := ⟨by decide, by decide, trivial⟩
  have link : leftovers.locate false (Bytes.ascii "/l") =
      .ok (.leaf ⟨leftovers.root, []⟩ (Bytes.ascii "l") (.link (Bytes.ascii "/nowhere"))) := by cbv
  exact ⟨distinct, by cbv, (bindAt_all_or_nothing distinct "a" (Bytes.ascii "/s")).1,
    (bindAt_all_or_nothing distinct "a" (Bytes.ascii "/l")).2.2.2.2 (by decide) _ link trivial⟩

end Channel

end LspProxy
