import LspProxy.Disk.Folder
import LspProxy.Disk.Path
import LspProxy.Failure

/-!
# Following paths

A path is followed name by name from a place. A place is a folder together with the folders on the
way to it, so that the one above is at hand also after a link. Links on the way are always followed,
a link at the end of the path only on demand, and at most `linkLimit` of them in all. What follows
the last name may only be slashes, and those ask for a folder.
-/
namespace LspProxy.Disk

/-- The most links that one path may lead through. -/
def linkLimit : Nat := 40

/-- The least number of bytes that is too many for a path. -/
def pathBound : Nat := 4096

/-- The most bytes a name may have. -/
def nameLimit : Nat := 255

/-- A folder and the named folders on the way to it, the innermost first. -/
structure Place where
  root : Folder
  trail : List (Bytes × Folder) := []

namespace Place

/-- The folder at this place. -/
def folder (place : Place) : Folder :=
  match place.trail with
  | [] => place.root
  | (_, folder) :: _ => folder

/-- The place above. Nothing is above the root but itself. -/
def above (place : Place) : Place := { place with trail := place.trail.drop 1 }

/-- The place of a folder in this one. -/
def enter (place : Place) (name : Bytes) (inner : Folder) : Place :=
  { place with trail := (name, inner) :: place.trail }

/-- The names on the way from the root. -/
def location (place : Place) : List Bytes := (place.trail.map Prod.fst).reverse

end Place

/-- Where a path leads. -/
inductive Target where
  | folder (place : Place) (listable : Bool)
  /-- An entry of the folder at this place. -/
  | leaf (place : Place) (name : Bytes) (leaf : Leaf)
  /-- Nothing has the last name yet in the folder at this place. -/
  | vacant (place : Place) (name : Bytes) (slashed : Bool)

/-- Follow names from a place, with so many links left. -/
def walk (follow : Bool) (links : Nat) (place : Place) (listable : Bool) (names : List Bytes) :
    Except Failure Target :=
  match names with
  | [] => .ok (.folder place listable)
  | name :: rest =>
    if name = [] ∨ name = Path.current then walk follow links place listable rest
    else if name = Path.parent then walk follow links place.above true rest
    else if nameLimit < name.length then .error (.system ErrorNumber.nameTooLong)
    else
      match place.folder.find? name with
      | none =>
        if rest.all List.isEmpty then .ok (.vacant place name (rest ≠ []))
        else .error (.system ErrorNumber.noEntry)
      | some (.folder listable inner) => walk follow links (place.enter name inner) listable rest
      | some (.leaf (.link target)) =>
        if rest = [] ∧ ¬ follow then .ok (.leaf place name (.link target))
        else
          match links with
          | 0 => .error (.system ErrorNumber.linkLoop)
          | left + 1 =>
            if target = [] then .error (.system ErrorNumber.noEntry)
            else
              let start := if Path.isAbsolute target then { place with trail := [] } else place
              walk follow left start true (Path.names target ++ rest)
      | some (.leaf leaf) =>
        if rest = [] then .ok (.leaf place name leaf)
        else .error (.system ErrorNumber.notDirectory)
termination_by (links, names.length)

end LspProxy.Disk
