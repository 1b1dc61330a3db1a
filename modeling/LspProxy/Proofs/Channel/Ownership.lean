import LspProxy.Proofs.Channel.Listening
import LspProxy.Proofs.Disk.Persistence
import LspProxy.Proofs.Disk.Sockets
import Mathlib

/-!
# Whose sockets listeners remove

Listeners are bound and dropped in any order, at any paths and at the same path again and again, and between
their calls others do with the file system what they like. A listener knows its own socket by a number, and a
number says whose socket it is only as long as it is not given away again. `World` therefore carries along who
made the socket that has a number, as nobody on the file system knows it. What holds in every reachable world
is that the number an open listener remembers is that of the one socket that its own bind made.

A call is one step: nothing comes between the making of a socket and the look at its number, or between the
look that a drop takes and its removal. That numbers are not given away while they are remembered is what a
step of `Step.bound` or `Step.outside` has to respect (`Fresh`, `unused`). Nothing is assumed about paths, and
what stands at them may be anything.
-/
namespace LspProxy

/-- A leaf is removed from under this name in the folder at this location, and nothing else is done. -/
structure Disk.Removes (before after : Disk) (name : Bytes) (location : List Bytes) (single : Leaf) : Prop where
  stood : before.root.sight? name location = some (.leaf single)
  gone : after.root.sight? name location = none
  elsewhere : ∀ last path, (last, path) ≠ (name, location) →
    after.root.sight? last path = before.root.sight? last path
  others : after = { before with root := after.root }

/-- A leaf that is no link can be removed from where a path leads. -/
theorem Disk.remove_removes {disk : Disk} {path : Path} {place : Place} {name : Bytes} {single : Leaf}
    (distinct : disk.root.Distinct) (found : disk.locate false path = .ok (.leaf place name single))
    (ends : Ending (some (.leaf single))) :
    ∃ after, disk.remove path = .ok after ∧ Removes disk after name place.location single := by
  obtain ⟨_, ⟨sound, root⟩, met⟩ := locate_leaf_sound found
  have reached := sound.reach
  rw [root] at reached
  have gone := Folder.find?_erase_self (distinct.reach? reached) name
  obtain ⟨after, modified, differ, reached', _⟩ := modify?_differs sound
    (fun other differs => Folder.find?_erase_of_ne differs place.folder) (met ▸ ends)
    (by rw [gone]; exact trivial)
  rw [root] at modified differ
  have removed : disk.remove path = .ok { disk with root := after } := by
    unfold remove
    rw [found]
    exact change_eq modified
  refine ⟨{ disk with root := after }, removed, locate_leaf_seen found, ?_, differ.elsewhere, rfl⟩
  rw [Folder.sight?_of_reach? reached', gone]
  rfl

/-- A change of the tree that keeps names distinct in the folder that it concerns. -/
theorem Disk.change_distinct {disk after : Disk} {place : Place} {edit : Folder → Folder}
    (keeps : ∀ here : Folder, here.Distinct → (edit here).Distinct) (distinct : disk.root.Distinct)
    (changed : disk.change place edit = .ok after) :
    after.root.Distinct ∧ after.nextSocket = disk.nextSocket := by
  unfold change at changed
  split at changed
  · rename_i root modified
    obtain rfl := Except.ok.inj changed
    exact ⟨distinct.modify? keeps modified, rfl⟩
  · exact absurd changed (by simp)

theorem Disk.remove_distinct {disk after : Disk} {path : Path} (distinct : disk.root.Distinct)
    (removed : disk.remove path = .ok after) :
    after.root.Distinct ∧ after.nextSocket = disk.nextSocket := by
  unfold remove at removed
  split at removed
  · exact absurd removed (by simp)
  · exact absurd removed (by simp)
  · exact absurd removed (by simp)
  · exact change_distinct (fun here distinct => distinct.erase _) distinct removed

namespace Channel

/-! ## One call -/

/-- Clearing a place removes a leaf at most. -/
theorem Cleared.distinct {disk after : Disk} {path : Path} (cleared : Cleared disk path after)
    (distinct : disk.root.Distinct) : after.root.Distinct ∧ after.nextSocket = disk.nextSocket := by
  rcases cleared with rfl | ⟨_, removed⟩
  · exact ⟨distinct, rfl⟩
  · exact Disk.remove_distinct distinct removed

/-- The socket that is put has the next number. -/
theorem placeSocket_distinct {disk after : Disk} {path : Path} {socket : Nat} (distinct : disk.root.Distinct)
    (placed : placeSocket disk path = .ok (socket, after)) :
    after.root.Distinct ∧ socket = disk.nextSocket := by
  obtain ⟨_, _, middle, put, same, rfl⟩ := placeSocket_cases placed
  obtain ⟨place, last, _, changed⟩ := Disk.place_cases put
  exact ⟨(Disk.change_distinct (fun here distinct => distinct.put _ _) distinct changed).1, same⟩

/-- A bind keeps the names distinct, and the number that its listener remembers is that of the socket that it
makes. -/
theorem bindAt_distinct {disk after : Disk} {name : String} {path : Path} {answer : Except Fault Listener}
    (distinct : disk.root.Distinct) (answered : (bindAt disk name path).value = (answer, after)) :
    after.root.Distinct ∧ ∀ listener, answer = .ok listener → listener.socket = disk.nextSocket := by
  obtain ⟨cleared, clears, bound⟩ := bindAt_value disk name path
  obtain ⟨still, number⟩ := clears.distinct distinct
  rw [answered] at bound
  cases answer with
  | error fault =>
    obtain rfl : after = cleared := bound
    exact ⟨still, nofun⟩
  | ok listener =>
    obtain ⟨placed, same⟩ := placeSocket_distinct still bound.2
    refine ⟨placed, ?_⟩
    rintro _ ⟨⟩
    exact same.trans number

/-- A listener's own socket is in place if its path leads to it. -/
theorem isInPlace_iff {disk : Disk} {listener : Listener} :
    listener.isInPlace disk = true ↔
      ∃ place name, disk.locate false listener.path = .ok (.leaf place name (.socket listener.socket)) := by
  unfold Listener.isInPlace
  constructor
  · intro owned
    split at owned
    · rename_i place name socket found
      obtain rfl := of_decide_eq_true owned
      exact ⟨place, name, found⟩
    · exact absurd owned (by simp)
  · rintro ⟨place, name, found⟩
    rw [found]
    exact decide_eq_true rfl

/-- A drop removes the listener's own socket if that is in place. -/
theorem release_removes_own {disk : Disk} {listener : Listener} {place : Disk.Place} {name : Bytes}
    (distinct : disk.root.Distinct)
    (found : disk.locate false listener.path = .ok (.leaf place name (.socket listener.socket))) :
    disk.Removes (listener.release disk).value name place.location (.socket listener.socket) := by
  obtain ⟨after, removed, removes⟩ := Disk.remove_removes distinct found trivial
  have released : (listener.release disk).value = after := by
    unfold Listener.release
    rw [if_pos (isInPlace_iff.mpr ⟨place, name, found⟩), removed]
    rfl
  rw [released]
  exact removes

theorem release_distinct {disk : Disk} (distinct : disk.root.Distinct) (listener : Listener) :
    (listener.release disk).value.root.Distinct := by
  unfold Listener.release
  split
  · cases removed : disk.remove listener.path with
    | error failure => exact distinct
    | ok after => exact (Disk.remove_distinct distinct removed).1
  · exact distinct

/-! ## Histories -/

/-- Who made a socket. -/
inductive Maker where
  /-- The bind that was the one with this number to succeed. -/
  | bind (number : Nat)
  | stranger
  deriving Repr, DecidableEq

/-- A file system with the listeners that are open on it. -/
structure World where
  disk : Disk
  /-- The open listeners, each with the number of its bind. -/
  opened : List (Nat × Listener) := []
  /-- How many binds have succeeded. -/
  binds : Nat := 0
  /-- Who made the socket that has this number, or had it last. -/
  maker : Nat → Maker := fun _ => .stranger

/-- A number can be given to a new socket: no open listener remembers it, and where the new socket has come
about no other has it. -/
structure Fresh (world : World) (after : Disk) (number : Nat) : Prop where
  unremembered : ∀ held ∈ world.opened, held.2.socket ≠ number
  single : after.sockets.count number = 1

/-- One call, or whatever others do between two calls. -/
inductive Step (world : World) : World → Prop where
  | bound {name : String} {path : Path} {listener : Listener} {after : Disk}
      (answered : (bindAt world.disk name path).value = (.ok listener, after))
      (fresh : Fresh world after world.disk.nextSocket) :
      Step world
        { disk := after
          opened := (world.binds, listener) :: world.opened
          binds := world.binds + 1
          maker := fun number =>
            if number = world.disk.nextSocket then .bind world.binds else world.maker number }
  | refused {name : String} {path : Path} {fault : Fault} {after : Disk}
      (answered : (bindAt world.disk name path).value = (.error fault, after)) :
      Step world { world with disk := after }
  | dropped {front back : List (Nat × Listener)} {number : Nat} {listener : Listener}
      (held : world.opened = front ++ (number, listener) :: back) :
      Step world { world with disk := (listener.release world.disk).value, opened := front ++ back }
  /-- Anything may be there afterwards, with sockets among it that were made under these numbers. -/
  | outside (after : Disk) (made : List Nat) (distinct : after.root.Distinct)
      (unused : ∀ held ∈ world.opened, held.2.socket ∉ made) :
      Step world
        { world with
          disk := after
          maker := fun number => if number ∈ made then .stranger else world.maker number }

/-- The worlds that histories lead to. A history begins on any file system, with no listener open. -/
inductive Reachable : World → Prop where
  | start (disk : Disk) (distinct : disk.root.Distinct) : Reachable { disk }
  | step {world next : World} (before : Reachable world) (step : Step world next) : Reachable next

/-- What every history keeps: an open listener remembers the number of the one socket that its bind made. -/
structure World.Owned (world : World) : Prop where
  distinct : world.disk.root.Distinct
  past : ∀ number bind, world.maker number = .bind bind → bind < world.binds
  remembered : ∀ held ∈ world.opened, ∀ number, world.maker number = .bind held.1 ↔ number = held.2.socket

/-- A bind that succeeds owns its socket, and no other listener's socket becomes its own. -/
theorem World.Owned.bound {world : World} (owned : world.Owned) {name : String} {path : Path}
    {listener : Listener} {after : Disk}
    (answered : (bindAt world.disk name path).value = (.ok listener, after))
    (unremembered : ∀ held ∈ world.opened, held.2.socket ≠ world.disk.nextSocket) :
    World.Owned
      { disk := after
        opened := (world.binds, listener) :: world.opened
        binds := world.binds + 1
        maker := fun number =>
          if number = world.disk.nextSocket then .bind world.binds else world.maker number } := by
  obtain ⟨distinct, remembers⟩ := bindAt_distinct owned.distinct answered
  have own : listener.socket = world.disk.nextSocket := remembers listener rfl
  refine ⟨distinct, ?past, ?remembered⟩
  case past =>
    intro number bind made
    dsimp only at made ⊢
    split at made
    · obtain rfl := Maker.bind.inj made
      omega
    · have earlier := owned.past number bind made
      omega
  case remembered =>
    intro held among number
    dsimp only
    rcases List.mem_cons.mp among with rfl | among
    · rw [own]
      split
      · simp [*]
      · rename_i other
        constructor
        · intro made
          exact absurd (owned.past number world.binds made) (by simp)
        · exact fun same => absurd same other
    · have before := owned.remembered held among
      have earlier := owned.past held.2.socket held.1 ((before _).mpr rfl)
      split
      · rename_i new
        constructor
        · intro made
          have same : world.binds = held.1 := Maker.bind.inj made
          omega
        · rintro rfl
          exact absurd new (unremembered held among)
      · exact before number

/-- One step keeps the sockets with their owners. -/
theorem World.Owned.step {world next : World} (owned : world.Owned) (step : Step world next) : next.Owned := by
  cases step with
  | bound answered fresh => exact owned.bound answered fresh.unremembered
  | refused answered => exact ⟨(bindAt_distinct owned.distinct answered).1, owned.past, owned.remembered⟩
  | @dropped front back number listener held =>
    refine ⟨release_distinct owned.distinct listener, owned.past, fun other among => ?_⟩
    have still : other ∈ world.opened := by
      rw [held]
      exact List.mem_append.mpr ((List.mem_append.mp among).imp_right (List.mem_cons_of_mem _))
    exact owned.remembered other still
  | outside after made distinct unused =>
    refine ⟨distinct, ?past, ?remembered⟩
    case past =>
      intro number bind by_bind
      dsimp only at by_bind
      split at by_bind
      · exact absurd by_bind (by simp)
      · exact owned.past number bind by_bind
    case remembered =>
      intro held among number
      dsimp only
      split
      · rename_i new
        constructor
        · exact fun impossible => absurd impossible (by simp)
        · rintro rfl
          exact absurd new (unused held among)
      · exact owned.remembered held among number

/-- So does every history. -/
theorem Reachable.owned {world : World} (reached : Reachable world) : world.Owned := by
  induction reached with
  | start disk distinct => exact ⟨distinct, by simp, by simp⟩
  | step before step inductionHypothesis => exact inductionHypothesis.step step

/-- In every history of binds, drops and whatever others do between them, a drop does one of two things. If its
path leads to a socket that the listener's own bind made, it removes this socket and nothing else. If its path
leads to anything else, be it a socket of another bind, one that was put there by others, something that is no
socket, or nothing, it leaves the file system as it is. -/
theorem drop_removes_own_socket_only {world : World} (reached : Reachable world) {number : Nat}
    {listener : Listener} (held : (number, listener) ∈ world.opened) :
    (∀ place name socket,
      world.disk.locate false listener.path = .ok (.leaf place name (.socket socket)) →
        world.maker socket = .bind number →
          world.disk.Removes (listener.release world.disk).value name place.location (.socket socket)) ∧
    ((∀ place name socket,
      world.disk.locate false listener.path = .ok (.leaf place name (.socket socket)) →
        world.maker socket ≠ .bind number) →
          (listener.release world.disk).value = world.disk) := by
  have owned := reached.owned
  have own (socket : Nat) : world.maker socket = .bind number ↔ socket = listener.socket :=
    owned.remembered (number, listener) held socket
  constructor
  · intro place name socket found made
    obtain rfl := (own socket).mp made
    exact release_removes_own owned.distinct found
  · intro foreign
    apply release_foreign
    apply Bool.eq_false_iff.mpr
    intro inPlace
    obtain ⟨place, name, found⟩ := isInPlace_iff.mp inPlace
    exact foreign place name listener.socket found ((own _).mpr rfl)

/-- A listener at a path, and one that is bound there after it and takes its place. -/
def rivals : Listener × Listener := (⟨"a", Bytes.ascii "/s", 0⟩, ⟨"b", Bytes.ascii "/s", 1⟩)

/-- What has come of both binds: only the second socket is there. -/
def rivalry : World where
  disk :=
    { root := .leaf (Bytes.ascii "s") (.socket 1) .empty
      nextSocket := 2
      modes := [(1, socketMode), (0, socketMode)] }
  opened := [(1, rivals.2), (0, rivals.1)]
  binds := 2
  maker := fun number => if number = 1 then .bind 1 else if number = 0 then .bind 0 else .stranger

theorem rivalry_reachable : Reachable rivalry := by
  have first : (bindAt {} "a" (Bytes.ascii "/s")).value =
      (.ok rivals.1,
        { root := .leaf (Bytes.ascii "s") (.socket 0) .empty, nextSocket := 1, modes := [(0, socketMode)] }) := by
    cbv
  have second : (bindAt
      { root := .leaf (Bytes.ascii "s") (.socket 0) .empty, nextSocket := 1, modes := [(0, socketMode)] } "b"
      (Bytes.ascii "/s")).value = (.ok rivals.2, rivalry.disk) := by cbv
  have one := (Reachable.start {} trivial).step (.bound first ⟨by simp, by decide⟩)
  exact one.step (.bound second ⟨by decide, by decide⟩)

/-- The drop of the first listener leaves the socket of the second in place, and that of the second removes
it. -/
theorem rivals_drop_their_own :
    Reachable rivalry ∧ (0, rivals.1) ∈ rivalry.opened ∧ (1, rivals.2) ∈ rivalry.opened ∧
      (rivals.1.release rivalry.disk).value = rivalry.disk ∧
      rivalry.disk.Removes (rivals.2.release rivalry.disk).value (Bytes.ascii "s") [] (.socket 1) := by
  have first : (0, rivals.1) ∈ rivalry.opened := by decide
  have second : (1, rivals.2) ∈ rivalry.opened := by decide
  have found : rivalry.disk.locate false (Bytes.ascii "/s") =
      .ok (.leaf ⟨rivalry.disk.root, []⟩ (Bytes.ascii "s") (.socket 1)) := by cbv
  refine ⟨rivalry_reachable, first, second, ?_, ?_⟩
  · refine (drop_removes_own_socket_only rivalry_reachable first).2 fun place name socket at_ made => ?_
    have same : socket = 1 := by
      have leads := found.symm.trans at_
      simp at leads
      exact leads.2.2.symm
    subst same
    exact absurd made (by decide)
  · exact (drop_removes_own_socket_only rivalry_reachable second).1 _ _ 1 found rfl

end Channel

end LspProxy
