import LspProxy.Bytes

/-!
# Folders

A folder is a finite sequence of named entries, in the order in which it lists them. The sequence
and the folders in it are one inductive type, so everything below a folder is reached by recursion
on the folder itself.
-/
namespace LspProxy

/-- What is special about a device. -/
inductive Device where
  /-- Takes everything and holds nothing. -/
  | void
  /-- Takes nothing. -/
  | full
  deriving Repr, DecidableEq

/-- An entry that holds no others. -/
inductive Leaf where
  | file (content : Bytes) (executable : Bool)
  /-- A symbolic link and the path it stands for. -/
  | link (target : Bytes)
  /-- A socket, known by a number of its own. -/
  | socket (identity : Nat)
  | device (device : Device)
  deriving Repr, DecidableEq

/-- The entries of a folder. -/
inductive Folder where
  | empty
  | leaf (name : Bytes) (leaf : Leaf) (others : Folder)
  /-- A folder in a folder, which can be listed or refuses that. -/
  | folder (name : Bytes) (listable : Bool) (inner : Folder) (others : Folder)
  deriving Repr, DecidableEq

/-- One entry of a folder. -/
inductive Entry where
  | leaf (leaf : Leaf)
  | folder (listable : Bool) (inner : Folder)
  deriving Repr, DecidableEq

namespace Folder

/-- The entry with a name. -/
def find? (name : Bytes) : Folder → Option Entry
  | empty => none
  | leaf other entry others => if other = name then some (.leaf entry) else others.find? name
  | folder other listable inner others =>
    if other = name then some (.folder listable inner) else others.find? name

/-- One entry in front of others. -/
def cons (name : Bytes) (entry : Entry) (others : Folder) : Folder :=
  match entry with
  | .leaf entry => leaf name entry others
  | .folder listable inner => folder name listable inner others

/-- The folder with an entry under a name, in place of what had the name before. -/
def put (name : Bytes) (entry : Entry) : Folder → Folder
  | empty => cons name entry empty
  | leaf other old others =>
    if other = name then cons name entry others else leaf other old (others.put name entry)
  | folder other listable inner others =>
    if other = name then cons name entry others
    else folder other listable inner (others.put name entry)

/-- The folder without the entry with a name. -/
def erase (name : Bytes) : Folder → Folder
  | empty => empty
  | leaf other entry others => if other = name then others else leaf other entry (others.erase name)
  | folder other listable inner others =>
    if other = name then others else folder other listable inner (others.erase name)

/-- Change the folder that is reached by these names, each of a folder in the one before. -/
def modify? (change : Folder → Folder) : List Bytes → Folder → Option Folder
  | [], here => some (change here)
  | _ :: _, empty => none
  | name :: names, leaf other entry others =>
    (leaf other entry ·) <$> modify? change (name :: names) others
  | name :: names, folder other listable inner others =>
    if other = name then (folder other listable · others) <$> modify? change names inner
    else (folder other listable inner ·) <$> modify? change (name :: names) others

theorem find?_cons_self (name : Bytes) (entry : Entry) (others : Folder) :
    (cons name entry others).find? name = some entry := by
  cases entry <;> simp [cons, find?]

theorem find?_put_self (name : Bytes) (entry : Entry) (here : Folder) :
    (here.put name entry).find? name = some entry := by
  induction here with
  | empty => simp [put, find?_cons_self]
  | leaf other old others inductionHypothesis =>
    by_cases same : other = name
    · simp [put, same, find?_cons_self]
    · simp [put, same, find?, inductionHypothesis]
  | folder other listable inner others _ inductionHypothesis =>
    by_cases same : other = name
    · simp [put, same, find?_cons_self]
    · simp [put, same, find?, inductionHypothesis]

end Folder

end LspProxy
