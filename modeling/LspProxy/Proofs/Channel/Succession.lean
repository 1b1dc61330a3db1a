import LspProxy.Proofs.Channel.Binding

/-!
# Whose socket is at a path

Listeners share a file system, and nobody else changes it. A bind takes a socket at its path for a leftover;
it cannot know whether the listener that made it is open, as nothing on the file system says so. So a bind at a
path that leads to a socket succeeds, whosever the socket is (`bindAt_takes_socket`), and the listener that it
belonged to stays open without it. `Sharing` carries along the sockets that were taken in this way.

An open listener's own socket is in place, and whoever connects to its path reaches it, exactly as long as no
later bind has taken it (`listeners_stand_until_displaced`). For this a socket has to be found again after each
call, and the path of a listener may be any. What keeps it found is that a call changes one entry through which
no path leads, as it is no folder and no link (`Disk.locate_elsewhere`).
-/
namespace LspProxy.Channel

/-- A call on a file system that listeners share. -/
inductive Call where
  | bind (name : String) (path : Path)
  /-- Drop the open listener whose socket has this number. -/
  | drop (number : Nat)
  deriving Repr, DecidableEq

/-- A file system with the listeners that are open on it. -/
structure Sharing where
  disk : Disk
  opened : List Listener := []
  /-- The numbers of the sockets that binds have taken away. -/
  displaced : List Nat := []

/-- One call. A bind that succeeds has taken the socket that its path led to. -/
def Sharing.call (sharing : Sharing) : Call → Sharing
  | .bind name path =>
    match (bindAt sharing.disk name path).value with
    | (.error _, disk) => { sharing with disk }
    | (.ok listener, disk) =>
      { disk
        opened := listener :: sharing.opened
        displaced := (socketAt sharing.disk path).toOption.toList ++ sharing.displaced }
  | .drop number =>
    match sharing.opened.find? (·.socket = number) with
    | none => sharing
    | some listener =>
      { sharing with
        disk := (listener.release sharing.disk).value
        opened := sharing.opened.filter (·.socket ≠ number) }

/-- All calls, one after the other, beginning with no listener open. -/
def Sharing.run (disk : Disk) (calls : List Call) : Sharing := calls.foldl Sharing.call { disk }

/-- The listener's own socket is where its path leads, whether a link at its end is followed or not, and nowhere
else. -/
def Listener.Stands (disk : Disk) (listener : Listener) : Prop :=
  ∃ last location,
    (∀ follow, ∃ place, place.location = location ∧
      disk.locate follow listener.path = .ok (.leaf place last (.socket listener.socket))) ∧
    ∀ name names, disk.root.sight? name names = some (.leaf (.socket listener.socket)) →
      (name, names) = (last, location)

/-- No socket with this number is left. -/
def Vanished (disk : Disk) (number : Nat) : Prop :=
  ∀ name names, disk.root.sight? name names ≠ some (.leaf (.socket number))

variable {disk after : Disk} {path : Path} {last : Bytes} {location : List Bytes} {listener : Listener}
  {number : Nat}

theorem socketAt_eq_ok_iff :
    socketAt disk path = .ok number ↔
      ∃ place last, disk.locate false path = .ok (.leaf place last (.socket number)) := by
  unfold socketAt
  constructor
  · intro looked
    split at looked
    · exact absurd looked (by simp)
    · rename_i place last socket found
      obtain rfl := Except.ok.inj looked
      exact ⟨place, last, found⟩
    · exact absurd looked (by simp)
  · rintro ⟨place, last, found⟩
    rw [found]

theorem mem_socketAt : number ∈ (socketAt disk path).toOption.toList ↔ socketAt disk path = .ok number := by
  cases socketAt disk path with
  | error failure => simp [Except.toOption]
  | ok socket => simp [Except.toOption, eq_comm]

/-- No path leads to a socket that has vanished. -/
theorem Vanished.unreached (vanished : Vanished disk number) (follow : Bool) (path : Path) (place : Disk.Place)
    (last : Bytes) : disk.locate follow path ≠ .ok (.leaf place last (.socket number)) :=
  fun found => vanished _ _ (Disk.locate_leaf_seen found)

/-! ## What a call does to other sockets -/

/-- One entry changes, an end into an end. If it is a socket then, it has one of these numbers. -/
structure Exchanged (disk after : Disk) (last : Bytes) (location : List Bytes) (numbers : List Nat) : Prop where
  differ : Disk.DifferAt last location disk.root after.root
  working : after.working = disk.working
  removed : after.removed = disk.removed
  now : ∀ number, after.root.sight? last location = some (.leaf (.socket number)) → number ∈ numbers

namespace Exchanged

variable {numbers : List Nat} (exchanged : Exchanged disk after last location numbers)

include exchanged

/-- A number that was nowhere and is not given now is nowhere. -/
theorem vanished (vanished : Vanished disk number) (elsewhere : number ∉ numbers) : Vanished after number := by
  intro name names seen
  by_cases here : (name, names) = (last, location)
  · obtain ⟨rfl, rfl⟩ := Prod.mk.inj here
    exact elsewhere (exchanged.now number seen)
  · rw [exchanged.differ.elsewhere name names here] at seen
    exact vanished name names seen

/-- A socket that was only here and is not put here now is nowhere. -/
theorem taken (stands : listener.Stands disk) (elsewhere : listener.socket ∉ numbers)
    (seen : disk.root.sight? last location = some (.leaf (.socket listener.socket))) :
    Vanished after listener.socket := by
  obtain ⟨_, _, _, only⟩ := stands
  intro name names seen'
  by_cases here : (name, names) = (last, location)
  · obtain ⟨rfl, rfl⟩ := Prod.mk.inj here
    exact elsewhere (exchanged.now _ seen')
  · rw [exchanged.differ.elsewhere name names here] at seen'
    exact here ((only name names seen').trans (only last location seen).symm)

/-- A socket that was somewhere else stands as before. -/
theorem stands (given : [] ∉ disk.working) (stands : listener.Stands disk)
    (elsewhere : listener.socket ∉ numbers)
    (unseen : disk.root.sight? last location ≠ some (.leaf (.socket listener.socket))) :
    listener.Stands after := by
  obtain ⟨name, names, leads, only⟩ := stands
  have away : (name, names) ≠ (last, location) := by
    rintro same
    obtain ⟨rfl, rfl⟩ := Prod.mk.inj same
    obtain ⟨place, rfl, found⟩ := leads false
    exact unseen (Disk.locate_leaf_seen found)
  refine ⟨name, names, fun follow => ?_, fun name' names' seen => ?_⟩
  · obtain ⟨place, rfl, found⟩ := leads follow
    obtain ⟨place', found', there⟩ := Disk.locate_elsewhere exchanged.differ exchanged.working exchanged.removed
      given found away
    exact ⟨place', there, found'⟩
  · by_cases here : (name', names') = (last, location)
    · obtain ⟨rfl, rfl⟩ := Prod.mk.inj here
      exact absurd (exchanged.now _ seen) elsewhere
    · rw [exchanged.differ.elsewhere name' names' here] at seen
      exact only name' names' seen

end Exchanged

/-- What a bind finds at its path is what is seen where its socket will be. -/
theorem Bound.found (bound : Bound disk listener after last location) :
    (disk.root.sight? last location = none ∧ ∀ number, socketAt disk listener.path ≠ .ok number) ∨
      ∃ number, disk.root.sight? last location = some (.leaf (.socket number)) ∧
        socketAt disk listener.path = .ok number := by
  obtain ⟨place, rfl, vacant | ⟨number, socket⟩⟩ := bound.room
  · left
    obtain ⟨start, starts⟩ := Option.ne_none_iff_exists'.mp bound.starts
    obtain ⟨⟨sound, root⟩, nothing⟩ := Disk.locate_sound_of_origin starts vacant
    refine ⟨?_, fun number looked => ?_⟩
    · rw [← root, Disk.Matches.sight? sound, nothing]
      rfl
    · obtain ⟨_, _, leads⟩ := socketAt_eq_ok_iff.mp looked
      exact absurd (vacant.symm.trans leads) (by simp)
  · right
    exact ⟨number, Disk.locate_leaf_seen socket, socketAt_eq_ok_iff.mpr ⟨place, last, socket⟩⟩

/-- A bind puts its own socket in the place of what was there. -/
theorem Bound.exchanged (bound : Bound disk listener after last location) :
    Exchanged disk after last location [listener.socket] := by
  refine ⟨⟨bound.elsewhere, ?before, by rw [bound.stands]; trivial⟩, by rw [bound.others], by rw [bound.others],
    ?now⟩
  case before =>
    rcases bound.found with ⟨nothing, _⟩ | ⟨number, socket, _⟩
    · rw [nothing]
      trivial
    · rw [socket]
      trivial
  case now =>
    intro number seen
    have same := Leaf.socket.inj (Entry.leaf.inj (Option.some.inj (seen.symm.trans bound.stands)))
    exact List.mem_singleton.mpr same

/-- A drop puts nothing in the place of its socket. -/
theorem exchanged_of_removes (removes : disk.Removes after last location (.socket number)) :
    Exchanged disk after last location [] := by
  refine ⟨⟨removes.elsewhere, by rw [removes.stood]; trivial, by rw [removes.gone]; trivial⟩,
    by rw [removes.others], by rw [removes.others], fun other seen => ?_⟩
  rw [removes.gone] at seen
  exact absurd seen (by simp)

/-! ## Histories -/

/-- What every history keeps. -/
structure Sharing.Orderly (sharing : Sharing) : Prop where
  distinct : sharing.disk.root.Distinct
  counted : Counted sharing.disk
  working : [] ∉ sharing.disk.working
  /-- No two listeners have one socket. -/
  single : (sharing.opened.map (·.socket)).Nodup
  past : ∀ listener ∈ sharing.opened, listener.socket < sharing.disk.nextSocket
  displacedPast : ∀ number ∈ sharing.displaced, number < sharing.disk.nextSocket
  stands : ∀ listener ∈ sharing.opened, listener.socket ∉ sharing.displaced → listener.Stands sharing.disk
  vanished : ∀ listener ∈ sharing.opened, listener.socket ∈ sharing.displaced →
    Vanished sharing.disk listener.socket

variable {sharing : Sharing}

/-- A new socket stands. -/
theorem Bound.new_stands (bound : Bound disk listener after last location) (counted : Counted disk) :
    listener.Stands after := by
  refine ⟨last, location, bound.leads, fun name names seen => ?_⟩
  by_cases here : (name, names) = (last, location)
  · exact here
  · rw [bound.elsewhere name names here] at seen
    exact absurd seen (bound.fresh counted name names)

/-- A bind that succeeds keeps a history orderly: it takes the socket at its path from whoever has it, and
touches no other. -/
theorem Sharing.Orderly.bound (orderly : sharing.Orderly) (distinct : after.root.Distinct)
    (bound : Bound sharing.disk listener after last location) :
    Sharing.Orderly
      { disk := after
        opened := listener :: sharing.opened
        displaced := (socketAt sharing.disk listener.path).toOption.toList ++ sharing.displaced } := by
  have next : after.nextSocket = sharing.disk.nextSocket + 1 := by rw [bound.others]
  have exchanged := bound.exchanged
  have older : ∀ held ∈ sharing.opened, held.socket ∉ [listener.socket] := by
    intro held among same
    have past := orderly.past held among
    rw [List.mem_singleton.mp same, bound.new] at past
    exact absurd past (Nat.lt_irrefl _)
  have taken {number : Nat} (among : socketAt sharing.disk listener.path = .ok number) :
      sharing.disk.root.sight? last location = some (.leaf (.socket number)) := by
    rcases bound.found with ⟨_, nothing⟩ | ⟨number', seen, looked⟩
    · exact absurd among (nothing number)
    · obtain rfl := Except.ok.inj (among.symm.trans looked)
      exact seen
  refine ⟨distinct, bound.counted orderly.counted, ?working, ?single, ?past, ?displacedPast, ?stands, ?vanished⟩
  case working =>
    have same : after.working = sharing.disk.working := by rw [bound.others]
    exact same ▸ orderly.working
  case single =>
    refine List.nodup_cons.mpr ⟨fun among => ?_, orderly.single⟩
    obtain ⟨held, among, same⟩ := List.mem_map.mp among
    exact older held among (List.mem_singleton.mpr same)
  case past =>
    intro held among
    dsimp only
    rw [next]
    rcases List.mem_cons.mp among with rfl | among
    · rw [bound.new]
      exact Nat.lt_succ_self _
    · exact Nat.lt_succ_of_lt (orderly.past held among)
  case displacedPast =>
    intro number among
    dsimp only
    rw [next]
    rcases List.mem_append.mp among with now | before
    · exact Nat.lt_succ_of_lt (orderly.counted _ _ _ (taken (mem_socketAt.mp now)))
    · exact Nat.lt_succ_of_lt (orderly.displacedPast number before)
  case stands =>
    intro held among kept
    rw [List.mem_append, not_or] at kept
    rcases List.mem_cons.mp among with rfl | among
    · exact bound.new_stands orderly.counted
    · have stood := orderly.stands held among kept.2
      refine exchanged.stands orderly.working stood (older held among) fun seen => ?_
      rcases bound.found with ⟨nothing, _⟩ | ⟨number, socket, looked⟩
      · exact absurd (nothing.symm.trans seen) (by simp)
      · obtain rfl := Leaf.socket.inj (Entry.leaf.inj (Option.some.inj (socket.symm.trans seen)))
        exact kept.1 (mem_socketAt.mpr looked)
  case vanished =>
    intro held among gone
    rcases List.mem_cons.mp among with rfl | among
    · have past : held.socket < sharing.disk.nextSocket := by
        rcases List.mem_append.mp gone with now | before
        · exact orderly.counted _ _ _ (taken (mem_socketAt.mp now))
        · exact orderly.displacedPast _ before
      rw [bound.new] at past
      exact absurd past (Nat.lt_irrefl _)
    · by_cases before : held.socket ∈ sharing.displaced
      · exact exchanged.vanished (orderly.vanished held among before) (older held among)
      · have stood := orderly.stands held among before
        have now := (List.mem_append.mp gone).resolve_right before
        exact exchanged.taken stood (older held among) (taken (mem_socketAt.mp now))

/-- Nothing happens to the listeners that are left. -/
theorem Sharing.Orderly.without (orderly : sharing.Orderly) (number : Nat) :
    Sharing.Orderly { sharing with opened := sharing.opened.filter (·.socket ≠ number) } where
  distinct := orderly.distinct
  counted := orderly.counted
  working := orderly.working
  single := orderly.single.sublist (List.filter_sublist.map _)
  past held among := orderly.past held (List.mem_filter.mp among).1
  displacedPast := orderly.displacedPast
  stands held among := orderly.stands held (List.mem_filter.mp among).1
  vanished held among := orderly.vanished held (List.mem_filter.mp among).1

/-- A drop that removes its socket touches no other. -/
theorem Sharing.Orderly.removed (orderly : sharing.Orderly) (distinct : after.root.Distinct)
    (others : ∀ held ∈ sharing.opened, held.socket ≠ number)
    (removes : sharing.disk.Removes after last location (.socket number)) :
    Sharing.Orderly { sharing with disk := after } := by
  have exchanged := exchanged_of_removes removes
  have next : after.nextSocket = sharing.disk.nextSocket := by rw [removes.others]
  refine ⟨distinct, ?counted, ?working, orderly.single, ?past, ?displacedPast, ?stands, ?vanished⟩
  case counted =>
    intro name names socket seen
    dsimp only at seen ⊢
    rw [next]
    by_cases here : (name, names) = (last, location)
    · obtain ⟨rfl, rfl⟩ := Prod.mk.inj here
      exact absurd (removes.gone.symm.trans seen) (by simp)
    · rw [removes.elsewhere name names here] at seen
      exact orderly.counted name names socket seen
  case working =>
    have same : after.working = sharing.disk.working := by rw [removes.others]
    exact same ▸ orderly.working
  case past => exact fun held among => next ▸ orderly.past held among
  case displacedPast => exact fun socket among => next ▸ orderly.displacedPast socket among
  case stands =>
    intro held among kept
    refine exchanged.stands orderly.working (orderly.stands held among kept) List.not_mem_nil fun seen => ?_
    have same := Leaf.socket.inj (Entry.leaf.inj (Option.some.inj (removes.stood.symm.trans seen)))
    exact others held among same.symm
  case vanished =>
    intro held among gone
    exact exchanged.vanished (orderly.vanished held among gone) List.not_mem_nil

/-- A drop of a listener keeps a history orderly. -/
theorem Sharing.Orderly.dropped (orderly : sharing.Orderly) (listener : Listener) :
    Sharing.Orderly
      { sharing with
        disk := (listener.release sharing.disk).value
        opened := sharing.opened.filter (·.socket ≠ listener.socket) } := by
  have left := orderly.without listener.socket
  by_cases owned : listener.isInPlace sharing.disk = true
  · obtain ⟨place, last, found⟩ := isInPlace_iff.mp owned
    refine left.removed (release_distinct orderly.distinct listener) (fun held among => ?_)
      (release_removes_own orderly.distinct found)
    simpa using (List.mem_filter.mp among).2
  · rw [release_foreign (Bool.eq_false_iff.mpr owned)]
    exact left

/-- A bind that is refused changes nothing; one that succeeds takes what its path leads to. -/
theorem Sharing.call_bind (distinct : sharing.disk.root.Distinct) (name : String) (path : Path) :
    sharing.call (.bind name path) = sharing ∨
      ∃ listener after last location, listener.path = path ∧ after.root.Distinct ∧
        Bound sharing.disk listener after last location ∧
        sharing.call (.bind name path) =
          { disk := after
            opened := listener :: sharing.opened
            displaced := (socketAt sharing.disk path).toOption.toList ++ sharing.displaced } := by
  have outcome := bindAt_outcome distinct name path
  cases answered : (bindAt sharing.disk name path).value with
  | mk answer after =>
    rw [answered] at outcome
    cases answer with
    | error fault =>
      left
      obtain ⟨rfl, _⟩ := outcome
      simp only [Sharing.call, answered]
    | ok listener =>
      right
      obtain ⟨_, _, same, last, location, bound⟩ := outcome
      refine ⟨listener, after, last, location, same, (bindAt_distinct distinct answered).1, bound, ?_⟩
      simp only [Sharing.call, answered]

/-- One call keeps a history orderly. -/
theorem Sharing.Orderly.call (orderly : sharing.Orderly) (call : Call) : (sharing.call call).Orderly := by
  cases call with
  | bind name path =>
    rcases Sharing.call_bind orderly.distinct name path with refused | ⟨listener, after, last, location, rfl,
      distinct, bound, called⟩
    · rw [refused]
      exact orderly
    · rw [called]
      exact orderly.bound distinct bound
  | drop number =>
    unfold Sharing.call
    dsimp only
    split
    · exact orderly
    · rename_i listener found
      have same : listener.socket = number := by simpa using List.find?_some found
      exact same ▸ orderly.dropped listener

theorem Sharing.orderly_start (distinct : disk.root.Distinct) (counted : Counted disk)
    (working : [] ∉ disk.working) : Sharing.Orderly { disk } where
  distinct := distinct
  counted := counted
  working := working
  single := List.nodup_nil
  past := nofun
  displacedPast := nofun
  stands := nofun
  vanished := nofun

/-- So does a whole history. -/
theorem Sharing.Orderly.calls (orderly : sharing.Orderly) (calls : List Call) :
    (calls.foldl Sharing.call sharing).Orderly := by
  induction calls generalizing sharing with
  | nil => exact orderly
  | cons call calls inductionHypothesis => exact inductionHypothesis (orderly.call call)

/-- No bind is at a path that leads to the socket of a listener which is open then. -/
def Sharing.Considerate (sharing : Sharing) : List Call → Prop
  | [] => True
  | .drop number :: calls => (sharing.call (.drop number)).Considerate calls
  | .bind name path :: calls =>
    (∀ listener ∈ sharing.opened, socketAt sharing.disk path ≠ .ok listener.socket) ∧
      (sharing.call (.bind name path)).Considerate calls

/-- No listener that is open has lost its socket. -/
def Sharing.Whole (sharing : Sharing) : Prop := ∀ listener ∈ sharing.opened, listener.socket ∉ sharing.displaced

/-- A considerate bind takes nobody's socket. -/
theorem Sharing.Whole.bound {name : String} (whole : sharing.Whole) (orderly : sharing.Orderly)
    (considerate : ∀ listener ∈ sharing.opened, socketAt sharing.disk path ≠ .ok listener.socket) :
    (sharing.call (.bind name path)).Whole := by
  have orderly' := orderly.call (.bind name path)
  rcases Sharing.call_bind orderly.distinct name path with refused | ⟨listener, after, last, location, _, _,
    bound, called⟩
  · rw [refused]
    exact whole
  · rw [called] at orderly' ⊢
    intro held among gone
    rcases List.mem_cons.mp among with rfl | older
    · exact orderly'.vanished held among gone last location bound.stands
    · rcases List.mem_append.mp gone with now | before
      · exact considerate held older (mem_socketAt.mp now)
      · exact whole held older before

theorem Sharing.Whole.dropped (whole : sharing.Whole) (number : Nat) : (sharing.call (.drop number)).Whole := by
  unfold Sharing.call
  dsimp only
  split
  · exact whole
  · exact fun held among => whole held (List.mem_filter.mp among).1

/-- In a considerate history nobody's socket is taken. -/
theorem Sharing.Whole.calls {calls : List Call} (whole : sharing.Whole) (orderly : sharing.Orderly)
    (considerate : sharing.Considerate calls) : (calls.foldl Sharing.call sharing).Whole := by
  induction calls generalizing sharing with
  | nil => exact whole
  | cons call calls inductionHypothesis =>
    cases call with
    | bind name path =>
      exact inductionHypothesis (whole.bound orderly considerate.1) (orderly.call _) considerate.2
    | drop number => exact inductionHypothesis (whole.dropped number) (orderly.call _) considerate

/-- In every history of binds and drops on a file system that nobody else changes, an open listener's socket
stands exactly as long as no later bind has taken it, and a drop removes this socket or nothing. So all open
listeners stand if the binds of the history were considerate. But a bind at a path that leads to a socket takes
it away and succeeds, whether its listener is open or not; apart from that a bind touches no socket at all. -/
theorem listeners_stand_until_displaced (distinct : disk.root.Distinct) (counted : Counted disk)
    (working : [] ∉ disk.working) (calls : List Call) :
    let sharing := Sharing.run disk calls
    (∀ listener ∈ sharing.opened,
      (listener.socket ∉ sharing.displaced → listener.Stands sharing.disk ∧ ∃ last location,
        sharing.disk.Removes (listener.release sharing.disk).value last location (.socket listener.socket)) ∧
      (listener.socket ∈ sharing.displaced → Vanished sharing.disk listener.socket ∧
        (listener.release sharing.disk).value = sharing.disk)) ∧
    (({ disk } : Sharing).Considerate calls → ∀ listener ∈ sharing.opened, listener.Stands sharing.disk) ∧
    (∀ name path, Outcome sharing.disk name path (bindAt sharing.disk name path).value) ∧
    (∀ name path place last number, path.length < addressSize →
      sharing.disk.locate false path = .ok (.leaf place last (.socket number)) →
        ∃ listener after, (bindAt sharing.disk name path).value = (.ok listener, after) ∧
          Bound sharing.disk listener after last place.location) := by
  have start := Sharing.orderly_start distinct counted working
  have orderly := start.calls calls
  refine ⟨fun listener among => ⟨fun kept => ?stands, fun gone => ?vanished⟩,
    fun considerate listener among => ?undisplaced, bindAt_outcome orderly.distinct,
    fun name path place last number short found => ?taken⟩
  case stands =>
    have stands := orderly.stands listener among kept
    obtain ⟨last, location, leads, _⟩ := id stands
    obtain ⟨place, rfl, found⟩ := leads false
    exact ⟨stands, last, place.location, release_removes_own orderly.distinct found⟩
  case vanished =>
    have vanished := orderly.vanished listener among gone
    refine ⟨vanished, release_foreign (Bool.eq_false_iff.mpr fun owned => ?_)⟩
    obtain ⟨place, last, found⟩ := isInPlace_iff.mp owned
    exact vanished.unreached false listener.path place last found
  case undisplaced =>
    have whole : ({ disk } : Sharing).Whole := nofun
    exact orderly.stands listener among (whole.calls start considerate listener among)
  case taken =>
    obtain ⟨after, value, bound⟩ := bindAt_takes_socket orderly.distinct name short found
    exact ⟨_, after, value, bound⟩

/-- What has come of one bind. -/
def bindOnce : Sharing where
  disk := { root := .leaf (Bytes.ascii "s") (.socket 0) .empty, nextSocket := 1, modes := [(0, socketMode)] }
  opened := [rivals.1]

/-- What has come of two binds at one path. -/
def bindTwice : Sharing where
  disk := rivalry.disk
  opened := [rivals.2, rivals.1]
  displaced := [0]

/-- Of two listeners that were bound at one path the second stands and the first does not. If the second is
bound at another path, the first stands. -/
theorem rivals_succeed :
    ({} : Disk).root.Distinct ∧ Counted {} ∧
      Sharing.run {} [.bind "a" (Bytes.ascii "/s"), .bind "b" (Bytes.ascii "/s")] = bindTwice ∧
      rivals.2.Stands rivalry.disk ∧ Vanished rivalry.disk 0 ∧
      rivals.1.Stands (Sharing.run {} [.bind "a" (Bytes.ascii "/s"), .bind "b" (Bytes.ascii "/t")]).disk := by
  have counted : Counted {} := by
    rintro last (_ | ⟨first, rest⟩) number seen <;> exact absurd seen (by simp [Folder.sight?, Folder.find?])
  have once : ({ disk := {} } : Sharing).call (.bind "a" (Bytes.ascii "/s")) = bindOnce := by cbv
  have twice : Sharing.run {} [.bind "a" (Bytes.ascii "/s"), .bind "b" (Bytes.ascii "/s")] = bindTwice := by cbv
  have beside : (Sharing.run {} [.bind "a" (Bytes.ascii "/s"), .bind "b" (Bytes.ascii "/t")]).opened =
      [⟨"b", Bytes.ascii "/t", 1⟩, rivals.1] := by cbv
  have considerate : ({ disk := {} } : Sharing).Considerate
      [.bind "a" (Bytes.ascii "/s"), .bind "b" (Bytes.ascii "/t")] := by
    have free : socketAt bindOnce.disk (Bytes.ascii "/t") = .error (.system ErrorNumber.noEntry) := by cbv
    refine ⟨fun _ none => absurd none List.not_mem_nil, fun _ _ => ?_, trivial⟩
    rw [once, free]
    simp
  have holds := @listeners_stand_until_displaced {} trivial counted (by decide)
  have rivals_hold := (holds [.bind "a" (Bytes.ascii "/s"), .bind "b" (Bytes.ascii "/s")]).1
  rw [twice] at rivals_hold
  exact ⟨trivial, counted, twice, ((rivals_hold rivals.2 (by decide)).1 (by decide)).1,
    ((rivals_hold rivals.1 (by decide)).2 (by decide)).1,
    (holds [.bind "a" (Bytes.ascii "/s"), .bind "b" (Bytes.ascii "/t")]).2.1 considerate rivals.1
      (by rw [beside]; decide)⟩

/-- A listener that is open, and whose socket is in place, loses it to a bind at its path, which succeeds; who
connects to the path then reaches the other listener. -/
theorem open_listener_displaced :
    let first := Sharing.run {} [.bind "a" (Bytes.ascii "/s")]
    let both := Sharing.run {} [.bind "a" (Bytes.ascii "/s"), .bind "b" (Bytes.ascii "/s")]
    rivals.1 ∈ first.opened ∧ rivals.1.isInPlace first.disk = true ∧
      (bindAt first.disk "b" rivals.1.path).value = (.ok rivals.2, both.disk) ∧
      rivals.1 ∈ both.opened ∧ rivals.1.isInPlace both.disk = false ∧
      both.disk.locate true rivals.1.path =
        .ok (.leaf ⟨both.disk.root, []⟩ (Bytes.ascii "s") (.socket rivals.2.socket)) := by
  have one : Sharing.run {} [.bind "a" (Bytes.ascii "/s")] = bindOnce := by cbv
  have two : Sharing.run {} [.bind "a" (Bytes.ascii "/s"), .bind "b" (Bytes.ascii "/s")] = bindTwice := by cbv
  rw [one, two]
  exact ⟨by decide, by cbv, by cbv, by decide, by cbv, by cbv⟩

end LspProxy.Channel
