import LspProxy.Text.Fields
import LspProxy.Text.Quoted

/-!
# Paths

A path is a byte string in which slashes separate names. Its `components` are the names that count:
empty ones and those for the current place do not. Two paths are ordered by their components, one
after the other, each by its bytes.
-/
namespace LspProxy

/-- A path, relative to the working folder unless it starts with a slash. -/
abbrev Path := Bytes

namespace Path

/-- The separator of names. -/
def slash : UInt8 := 0x2F

/-- The name for the current place. -/
def current : Bytes := [0x2E]

/-- The name for the place above. -/
def parent : Bytes := [0x2E, 0x2E]

/-- The names between the slashes of a path, empty ones included. -/
def names (path : Path) : List Bytes := Text.fields (· == slash) path

/-- The names of a path that count. -/
def components (path : Path) : List Bytes :=
  path.names.filter fun name => name ≠ [] ∧ name ≠ current

def isAbsolute (path : Path) : Bool := path.head? = some slash

/-- The path whose components are these, below the root. -/
def ofComponents (components : List Bytes) : Path := components.flatMap (slash :: ·)

/-- A path below another. One that starts at the root stands for itself. -/
def join (path below : Path) : Path :=
  if below.isAbsolute then below
  else if path = [] ∨ path.getLast? = some slash then path ++ below
  else path ++ slash :: below

/-- The paths of these components, the last one first, and of all shorter rows of them. -/
def prefixes (path : Path) : List Bytes → List Path
  | [] => []
  | last :: above =>
    let whole := ofComponents (last :: above).reverse
    (if path.isAbsolute then whole else whole.drop 1) :: prefixes path above

/-- The ancestors of a path that are neither the root nor the working folder, the path itself
first. -/
def ancestors (path : Path) : List Path := prefixes path path.components.reverse

/-- The last component, if it is a name of something. -/
def fileName? (path : Path) : Option Bytes := do
  let last ← path.components.getLast?
  if last = parent then none else some last

/-- A name up to its last dot, and what follows the dot. A dot at the start of a name cuts
nothing. -/
def cutName (name : Bytes) : Bytes × Option Bytes :=
  let extension := (name.reverse.takeWhile (· ≠ 0x2E)).reverse
  let stem := (name.take (name.length - extension.length)).dropLast
  if stem = [] then (name, none) else (stem, some extension)

/-- What follows the last dot of a path's last name. -/
def extension? (path : Path) : Option Bytes := do (cutName (← path.fileName?)).2

/-- What stands before the last dot of a path's last name. -/
def stem? (path : Path) : Option Bytes := do return (cutName (← path.fileName?)).1

/-- The path comes before the other or is equal to it in the order of components. -/
def precedes (first second : Path) : Bool := first.components ≤ second.components

/-- The text of a path. -/
def display (path : Path) : String := Text.Utf8.display path

/-- The path in quotes, as reports show it. -/
def quoted (path : Path) : String := Text.Quoted.ofBytes path

example : components "a/./b//..".toUTF8.toList = ["a".toUTF8.toList, "b".toUTF8.toList, parent] := by
  decide +kernel
example : extension? [0x2E, 0x2E, 0x61] = some [0x61] ∧ extension? [0x2E, 0x61] = none := by decide
example : ancestors [0x61, 0x2F, 0x62] = [[0x61, 0x2F, 0x62], [0x61]] := by decide

end Path

end LspProxy
