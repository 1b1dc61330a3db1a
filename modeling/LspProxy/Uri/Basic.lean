import LspProxy.Uri.Host
import LspProxy.Uri.Segments

/-!
# URIs

A URI is read without anything to complete it with, and only its host and its path are kept.
Blanks and controls around the text are dropped, tabs and line ends everywhere. What follows the
scheme is read in one of three ways: file URIs have a host only after two slashes and may have none;
the other schemes with a well-known syntax always have one, however many slashes stand before it;
all further schemes have one exactly after two slashes, and without a slash an opaque path.

Tabs and line ends are dropped before anything is read. A reader that drops them as it comes to them can
part a path in two behind a drive letter whose colon stands before one of them, and this is left out:
`file:/C:` with a tab and `x` behind it is read as `file:/C:x`.
-/
namespace LspProxy

/-- The parts of a URI that lead to a file. -/
structure Uri where
  host : Uri.Host
  /-- The segments of the path. An opaque path and an empty one have none. -/
  segments : List (List Char)
  deriving Repr, DecidableEq

namespace Uri

/-- How the text after a scheme is read. -/
inductive Kind where
  | file
  /-- There is an authority with a domain. -/
  | wellKnown
  | generic
  deriving Repr, DecidableEq

/-- The way a scheme is read. -/
def Kind.ofScheme (scheme : List Char) : Kind :=
  if scheme = "file".toList then .file
  else if ["http", "https", "ws", "wss", "ftp"].any (fun known => known.toList = scheme) then
    .wellKnown
  else .generic

/-- The separators of a path. -/
def isSlash (backslashes : Bool) (c : Char) : Bool := c = '/' || (backslashes && c = '\\')

/-- The marks that end a path: what follows names no part of a file. -/
def endsPath (c : Char) : Bool := c = '?' || c = '#'

/-- The marks that end an authority. -/
def endsAuthority (backslashes : Bool) (c : Char) : Bool := isSlash backslashes c || endsPath c

/-- The segments of a path. A separator at its start leaves an empty segment before it. -/
def readPath (backslashes : Bool) (text : List Char) : List (List Char) :=
  resolve (Text.fields (isSlash backslashes) (text.takeWhile (fun c => !endsPath c)))

/-- The text without one separator at its start. -/
def dropSlash (backslashes : Bool) : List Char → List Char
  | [] => []
  | c :: rest => if isSlash backslashes c then rest else c :: rest

/-! ## File URIs -/

/-- The file URI with this path. A path that starts at a drive leaves no room for a host. -/
def ofFilePath (host : Host) (segments : List (List Char)) : Uri where
  host := if startsAtDrive segments then .absent else host
  segments := withoutLeadingEmpty (markDrive segments)

/-- What follows two slashes of a file URI. A drive letter is no host. Where the host says nothing,
the separator behind it belongs to the path, so that a drive there is not at its start. -/
def readFileAuthority (text : List Char) : Except Fault Uri :=
  let host := text.takeWhile (fun c => !endsAuthority true c)
  let rest := text.drop host.length
  if host.length = 2 ∧ isDrive host then .ok (ofFilePath .absent (readPath true text))
  else if host.isEmpty then .ok (ofFilePath .absent (readPath true rest))
  else do
    let host ← readHost host
    if host.isLocal then return ofFilePath .absent (readPath true rest)
    else return ofFilePath host (readPath true (dropSlash true rest))

/-- What follows the scheme of a file URI. -/
def readFile (text : List Char) : Except Fault Uri :=
  match text with
  | first :: second :: rest =>
    if isSlash true first ∧ isSlash true second then readFileAuthority rest
    else .ok (ofFilePath .absent (readPath true (dropSlash true text)))
  | _ => .ok (ofFilePath .absent (readPath true (dropSlash true text)))

/-! ## Authorities -/

/-- The credentials before the last at sign of an authority, if there is one, and what follows. -/
def credentials (backslashes : Bool) (text : List Char) : Option (List Char) × List Char :=
  let authority := text.takeWhile (fun c => !endsAuthority backslashes c)
  let afterSign := (authority.reverse.takeWhile (· ≠ '@')).length
  if authority.length = afterSign then (none, text)
  else
    let length := authority.length - afterSign - 1
    (some (text.take length), text.drop (length + 1))

/-- The length of the host at the start of a text. A colon ends it unless it stands in brackets. -/
def hostLength (backslashes bracketed : Bool) : List Char → Nat
  | [] => 0
  | c :: rest =>
    if (c = ':' ∧ ¬ bracketed) ∨ endsAuthority backslashes c then 0
    else hostLength backslashes (if c = '[' then true else if c = ']' then false else bracketed) rest + 1

/-- The least number that is no port. -/
def portBound : Nat := 65536

/-- What follows an optional port. -/
def dropPort : List Char → Except Fault (List Char)
  | ':' :: rest =>
    let digits := rest.takeWhile Char.isDigit
    let after := rest.drop digits.length
    if Text.Decimal.value digits < portBound ∧ (after.isEmpty ∨ after.head?.any (endsAuthority true)) then
      .ok after
    else .error .invalidPort
  | text => .ok text

/-- An authority and the path behind it. -/
def readAuthority (wellKnown : Bool) (text : List Char) : Except Fault Uri := do
  let (user, text) := credentials wellKnown text
  if user = some [] ∧ text.head?.any (endsAuthority wellKnown) then .error .emptyHost
  else
    let length := hostLength wellKnown false text
    let host := text.take length
    let rest := text.drop length
    if host.isEmpty ∧ (wellKnown ∨ rest.head? = some ':') then .error .emptyHost
    else
      let host ← if wellKnown then readHost host else readOpaqueHost host
      let rest ← dropPort rest
      if host = .absent ∧ user.any (fun text => text ≠ [] ∧ text ≠ [':']) then .error .emptyHost
      else if wellKnown then return ⟨host, readPath true (dropSlash true rest)⟩
      else if rest.isEmpty ∨ rest.head?.any endsPath then return ⟨host, []⟩
      else return ⟨host, readPath false (dropSlash false rest)⟩

/-! ## Whole URIs -/

/-- What follows a scheme without a well-known syntax. -/
def readGeneric : List Char → Except Fault Uri
  | '/' :: '/' :: rest => readAuthority false rest
  | '/' :: rest => .ok ⟨.absent, readPath false rest⟩
  | _ => .ok ⟨.absent, []⟩

/-- A control or a space, which may stand around a URI. -/
def isPadding (c : Char) : Bool := c ≤ ' '

/-- The characters that are dropped from all of a URI. -/
def isDropped (c : Char) : Bool := c = '\t' || c = '\n' || c = '\r'

/-- The text of a URI without what does not count. -/
def clean (text : List Char) : List Char :=
  (((text.dropWhile isPadding).reverse.dropWhile isPadding).reverse).filter (fun c => !isDropped c)

/-- A character of a scheme. -/
def isSchemeCharacter (c : Char) : Bool := c.isAlphanum || c = '+' || c = '-' || c = '.'

/-- The scheme of a text in lower case, and what follows its colon. -/
def scheme? (text : List Char) : Option (List Char × List Char) :=
  let scheme := text.takeWhile isSchemeCharacter
  match scheme, text.drop scheme.length with
  | first :: _, ':' :: rest => if first.isAlpha then some (scheme.map Char.toLower, rest) else none
  | _, _ => none

/-- Read a URI. -/
def parse (text : List Char) : Except Fault Uri :=
  match scheme? (clean text) with
  | none => .error .relative
  | some (scheme, rest) =>
    match Kind.ofScheme scheme with
    | .file => readFile rest
    | .wellKnown => readAuthority true (rest.dropWhile (isSlash true))
    | .generic => readGeneric rest

example : (parse "file://h/C|/x".toList).toOption =
    some ⟨.absent, ["C:".toList, "x".toList]⟩ := by decide +kernel
example : (parse "file:///C|/x".toList).toOption =
    some ⟨.absent, ["C|".toList, "x".toList]⟩ := by decide +kernel

end Uri

end LspProxy
