import LspProxy.Channel.Connection
import LspProxy.Proofs.Disk.Placing
import LspProxy.Proofs.Disk.Writing

/-!
# A channel leaves nothing behind

Binding a channel puts one socket into the file system, where its path leads to nothing, after a leftover
socket that may stand there has been cleared (`bindAt_value`). Giving it up takes the socket away again if
it is still the listener's own (`release_owned`), and touches nothing otherwise. A channel that is given
up at once leaves the tree as it was after the clearing (`release_placeSocket`).

Following the path again after a change of the tree is the point at which this could go wrong, and is
taken from `Disk.locate_matches`: the path of a channel is absolute.
-/
namespace LspProxy.Channel

/-- The path of a channel does not depend on the working folder. -/
theorem path_isAbsolute (name : String) : (path name).isAbsolute = true := by
  have below : Path.isAbsolute (Bytes.ascii "CoreFxPipe_" ++ Text.Utf8.ofString name) = false := rfl
  unfold path Path.join
  rw [below]
  rfl

/-- What may become of a place before a channel is bound there: nothing, or a leftover socket there is
removed. -/
def Cleared (disk : Disk) (path : Path) (after : Disk) : Prop :=
  after = disk ∨
    (∃ place last identity, disk.locate false path = .ok (.leaf place last (.socket identity))) ∧
      disk.remove path = .ok after

theorem clear_cleared {disk after : Disk} {path : Path} (done : (clear disk path).value = .ok after) :
    Cleared disk path after := by
  unfold clear at done
  split at done
  · rename_i place last identity found
    exact .inr ⟨⟨place, last, identity, found⟩, done⟩
  · exact absurd done (by simp)
  · exact absurd done (by simp)
  · exact .inl (Except.ok.inj done).symm
  · rename_i failure found
    rw [Log.Logged.value_pure] at done
    split at done
    · exact .inl (Except.ok.inj done).symm
    · exact absurd done (by simp)

/-- Binding at a path that is short enough is clearing the place and putting a socket there. -/
theorem bindAt_short {disk : Disk} {path : Path} {name : String} (short : ¬ addressSize ≤ path.length) :
    (bindAt disk name path).value =
      match (clear disk path).value with
      | .error failure => (.error (.binding path failure), disk)
      | .ok cleared =>
        match placeSocket cleared path with
        | .error failure => (.error (.binding path failure), cleared)
        | .ok (socket, after) => (.ok { name, path, socket }, after) := by
  unfold bindAt
  rw [if_neg short, Log.Logged.value_bind]
  cases (clear disk path).value with
  | error failure => rfl
  | ok cleared =>
    cases placed : placeSocket cleared path with
    | error failure => simp [placed]
    | ok bound => simp [placed]

/-- Binding clears the place and puts the listener's socket there, or fails. -/
theorem bindAt_value (disk : Disk) (name : String) (path : Path) :
    ∃ cleared, Cleared disk path cleared ∧
      match (bindAt disk name path).value with
      | (.error _, after) => after = cleared
      | (.ok listener, after) =>
        listener.path = path ∧ placeSocket cleared path = .ok (listener.socket, after) := by
  by_cases long : addressSize ≤ path.length
  · unfold bindAt
    rw [if_pos long]
    exact ⟨disk, .inl rfl, rfl⟩
  · rw [bindAt_short long]
    cases done : (clear disk path).value with
    | error failure => exact ⟨disk, .inl rfl, rfl⟩
    | ok cleared =>
      refine ⟨cleared, clear_cleared done, ?_⟩
      cases placed : placeSocket cleared path with
      | error failure => simp [placed]
      | ok bound => simp [placed]

/-- A new socket is made for a path that is an address, in no folder or at the path. -/
theorem makeSocket_cases {disk after : Disk} {path : Path} (made : makeSocket disk path = .ok after) :
    unaddressable? path = none ∧
      (path = [] ∧ after = disk ∨
        ∃ middle, disk.place path (.socket disk.nextSocket) = .ok middle ∧
          after = { middle with nextSocket := disk.nextSocket + 1 }) := by
  unfold makeSocket at made
  split at made
  · exact absurd made (by simp)
  · rename_i fits
    split at made
    · rename_i empty
      exact ⟨fits, .inl ⟨empty, (Except.ok.inj made).symm⟩⟩
    · split at made
      · rename_i middle put
        exact ⟨fits, .inr ⟨middle, put, (Except.ok.inj made).symm⟩⟩
      · exact absurd made (by simp)

/-- What a file system is after a socket has been put into it. -/
def withSocket (disk middle : Disk) : Disk :=
  { middle with
    nextSocket := disk.nextSocket + 1
    modes := (disk.nextSocket, socketMode) :: middle.modes }

/-- Once a socket has been made where a path from the tree leads to nothing, neither giving it permissions nor
looking up its number can fail. -/
theorem placeSocket_puts {disk : Disk} {path : Path} {place : Disk.Place} {name : Bytes}
    (starts : disk.origin? path ≠ none) (fits : unaddressable? path = none)
    (found : disk.locate false path = .ok (.vacant place name false)) :
    ∃ middle final, disk.place path (.socket disk.nextSocket) = .ok middle ∧
      placeSocket disk path = .ok (disk.nextSocket, withSocket disk middle) ∧
      disk.Puts middle name place.location (.socket disk.nextSocket) ∧
      middle.locate false path = .ok (.leaf final name (.socket disk.nextSocket)) ∧
      final.location = place.location := by
  have ends : Disk.Ending (some (.leaf (.socket disk.nextSocket))) := trivial
  obtain ⟨middle, final, put, puts, leads, location⟩ := Disk.place_puts starts ends found
  have made : makeSocket disk path = .ok { middle with nextSocket := disk.nextSocket + 1 } := by
    unfold makeSocket
    rw [fits, put]
    exact if_neg (Disk.locate_eq_ok found).2.1
  have followed : ({ middle with nextSocket := disk.nextSocket + 1 } : Disk).locate true path =
      .ok (.leaf final name (.socket disk.nextSocket)) := Disk.locate_followed leads ends
  have moded : Disk.setMode { middle with nextSocket := disk.nextSocket + 1 } path socketMode =
      .ok (withSocket disk middle) := by
    unfold Disk.setMode
    rw [followed]
    rfl
  have looked : socketAt (withSocket disk middle) path = .ok disk.nextSocket := by
    have same : (withSocket disk middle).locate false path = middle.locate false path := rfl
    unfold socketAt
    rw [same, leads]
  refine ⟨middle, final, put, ?_, puts, leads, location⟩
  simp only [placeSocket, made, Bind.bind, Except.bind, moded, looked]
  rfl

/-- What a socket comes from that has been put at a path. -/
theorem placeSocket_eq_ok {disk after : Disk} {path : Path} {socket : Nat}
    (placed : placeSocket disk path = .ok (socket, after)) :
    ∃ made, makeSocket disk path = .ok made ∧ made.setMode path socketMode = .ok after ∧
      socketAt after path = .ok socket := by
  unfold placeSocket at placed
  cases made : makeSocket disk path with
  | error failure => exact absurd placed (by simp [made, Bind.bind, Except.bind])
  | ok first =>
    simp only [made, Bind.bind, Except.bind] at placed
    cases moded : first.setMode path socketMode with
    | error failure => exact absurd placed (by simp [moded])
    | ok second =>
      simp only [moded] at placed
      cases looked : socketAt second path with
      | error failure => exact absurd placed (by simp [looked])
      | ok number =>
        simp only [looked] at placed
        obtain ⟨rfl, rfl⟩ := Prod.mk.inj (Except.ok.inj placed)
        exact ⟨first, rfl, moded, looked⟩

theorem setMode_removed {disk after : Disk} {path : Path} {mode : Nat}
    (moded : disk.setMode path mode = .ok after) : after.removed = disk.removed := by
  unfold Disk.setMode at moded
  split at moded
  · exact absurd moded (by simp)
  · exact absurd moded (by simp)
  · obtain rfl := Except.ok.inj moded
    rfl
  · obtain rfl := Except.ok.inj moded
    rfl

/-- A new socket is a leaf put at its path, under the next number. The path does not stay in a working folder
that has been removed, as no socket would be found there. -/
theorem placeSocket_cases {disk after : Disk} {path : Path} {socket : Nat}
    (placed : placeSocket disk path = .ok (socket, after)) :
    unaddressable? path = none ∧ disk.origin? path ≠ none ∧
      ∃ middle, disk.place path (.socket disk.nextSocket) = .ok middle ∧ socket = disk.nextSocket ∧
        after = withSocket disk middle := by
  obtain ⟨made, first, moded, looked⟩ := placeSocket_eq_ok placed
  obtain ⟨fits, ⟨rfl, rfl⟩ | ⟨middle, put, rfl⟩⟩ := makeSocket_cases first
  · -- the permissions of a socket in no folder cannot be set
    exact absurd moded nofun
  obtain ⟨place, last, found, changed⟩ := Disk.place_cases put
  have starts : disk.origin? path ≠ none := by
    intro stays
    have removed : after.removed = disk.removed :=
      (setMode_removed moded).trans (Disk.change_fields changed).2.2
    have stays' := Disk.origin?_eq_none_of_removed removed stays
    unfold socketAt at looked
    split at looked
    · exact absurd looked (by simp)
    · rename_i at_ name number leads
      exact (Disk.locate_leaf_sound leads).1 stays'
    · exact absurd looked (by simp)
  obtain ⟨middle', _, put', bound, _⟩ := placeSocket_puts starts fits found
  obtain rfl := Except.ok.inj (put.symm.trans put')
  obtain ⟨same, rfl⟩ := Prod.mk.inj (Except.ok.inj (bound.symm.trans placed))
  exact ⟨fits, starts, middle, put, same.symm, rfl⟩

/-- A socket that has just been put at its listener's path is in place, and a listener that is given up
then leaves the tree as it was. -/
theorem release_placeSocket {disk after : Disk} {listener : Listener}
    (absolute : listener.path.isAbsolute = true)
    (placed : placeSocket disk listener.path = .ok (listener.socket, after)) :
    listener.isInPlace after = true ∧ (listener.release after).value.root = disk.root := by
  obtain ⟨_, _, middle, put, socket, rfl⟩ := placeSocket_cases placed
  have ends : Disk.Ending (some (.leaf (.socket disk.nextSocket))) := trivial
  obtain ⟨place, last, located, removed⟩ := Disk.remove_place absolute ends put
  have owned : listener.isInPlace (withSocket disk middle) = true := by
    unfold Listener.isInPlace
    have same : (withSocket disk middle).locate false listener.path =
        middle.locate false listener.path := rfl
    rw [same, located]
    simpa using socket.symm
  refine ⟨owned, ?_⟩
  unfold Listener.release
  rw [if_pos owned, withSocket, Disk.remove_withSockets, removed]
  rfl

/-- The listener's own socket can be removed where it is in place, and is not in place any more. -/
theorem release_owned {disk : Disk} {listener : Listener} (absolute : listener.path.isAbsolute = true)
    (distinct : disk.root.Distinct) (owned : listener.isInPlace disk = true) :
    disk.remove listener.path = .ok (listener.release disk).value ∧
      listener.isInPlace (listener.release disk).value = false := by
  have removed : ∃ root, disk.remove listener.path = .ok { disk with root } ∧
      ∃ place' name, ({ disk with root } : Disk).locate false listener.path =
        .ok (.vacant place' name false) := by
    unfold Listener.isInPlace at owned
    split at owned
    · rename_i place name socket found
      obtain ⟨root, removed, place', gone⟩ := Disk.remove_ending absolute found trivial distinct
      exact ⟨root, removed, place', name, gone⟩
    · exact absurd owned (by simp)
  obtain ⟨root, removed, place', name, gone⟩ := removed
  have released : (listener.release disk).value = { disk with root } := by
    unfold Listener.release
    rw [if_pos owned, removed]
    rfl
  rw [released]
  refine ⟨removed, ?_⟩
  unfold Listener.isInPlace
  rw [gone]

/-- A listener whose socket is not in place leaves the files alone. -/
theorem release_foreign {disk : Disk} {listener : Listener} (foreign : listener.isInPlace disk = false) :
    (listener.release disk).value = disk := by
  unfold Listener.release
  rw [if_neg (by simp [foreign])]
  rfl

end LspProxy.Channel
