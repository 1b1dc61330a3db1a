import LspProxy.Text.Utf8
import LspProxy.Uri.Percent
import LspProxy.Uri.Address
import LspProxy.Uri.Punycode

/-!
# Hosts of URIs

A host is read in one of two ways. Schemes with a well-known syntax have domains: escapes are
decoded, characters are brought to one form, each label is checked, and a domain that ends in a
number has to be an address. Other schemes have opaque hosts, which are kept as they stand unless
they hold a character that no host may hold. For a file only three kinds of host matter: none, a
name, and an address.

Domains in ASCII without transcribed labels are read in full. Of the mapping of international domains
only a part is here: the forms of wide characters and of the few others that `domainForm` names, and the
characters without weight or without a form that `isIgnorable` and `isUnmappable` name. The rest of its
tables is left out, with the normal forms and the rules for joiners and for scripts that run from right to
left. So a domain beyond ASCII can be a name here where the whole mapping makes it `localhost`, as it does
of `ℓocalhost`, or refuses it, as it does where a character is not assigned.
-/
namespace LspProxy.Uri

/-- Why a text is not a URI. -/
inductive Fault where
  /-- There is no scheme, and nothing to complete the text with. -/
  | relative
  | emptyHost
  | invalidPort
  | invalidQuad
  | invalidGroups
  /-- An opaque host holds a character that no host may hold. -/
  | invalidHostCharacter
  /-- A domain has no form in ASCII. -/
  | invalidDomain
  deriving Repr, DecidableEq

/-- The wording of a fault. -/
def Fault.message : Fault → String
  | relative => "relative URL without a base"
  | emptyHost => "empty host"
  | invalidPort => "invalid port number"
  | invalidQuad => "invalid IPv4 address"
  | invalidGroups => "invalid IPv6 address"
  | invalidHostCharacter => "invalid domain character"
  | invalidDomain => "invalid international domain name"

/-- The host of a URI. -/
inductive Host where
  /-- No host, or an empty one. -/
  | absent
  | name (text : List Char)
  | address
  deriving Repr, DecidableEq

/-- The characters that no host may hold. -/
def isForbidden (c : Char) : Bool :=
  c = '\x00' || c = '\t' || c = '\n' || c = '\r' || c = ' ' || c = '#' || c = '/' || c = ':'
    || c = '<' || c = '>' || c = '?' || c = '@' || c = '[' || c = '\\' || c = ']' || c = '^'
    || c = '|'

/-- The characters that no domain may hold. -/
def isForbiddenInDomain (c : Char) : Bool :=
  isForbidden c || c.toNat < 0x20 || c = '%' || c.toNat = 0x7F

/-- Characters without weight in a domain. -/
def isIgnorable (c : Char) : Bool :=
  c = '\u00AD' || c = '\u200B' || c = '\u2060' || c = '\uFEFF' || c = '\u034F'
    || (0xFE00 ≤ c.toNat && c.toNat ≤ 0xFE0F)

/-- Characters that have no form in a domain: controls beyond ASCII, joiners without a context, the
replacement character and the private use areas. -/
def isUnmappable (c : Char) : Bool :=
  (0x80 ≤ c.toNat && c.toNat < 0xA0) || c = '\u200C' || c = '\u200D' || c = '\uFFFD'
    || (0xE000 ≤ c.toNat && c.toNat ≤ 0xF8FF) || 0xE0000 ≤ c.toNat

/-- The form of a character in a domain: lower case, and the ordinary form of a wide one. -/
def domainForm (c : Char) : Char :=
  if c = '\u3002' ∨ c = '\uFF61' then '.'
  else if c = '\u00A0' ∨ c = '\u3000' then ' '
  else if c = '\u212A' then 'k'
  else if c = '\u017F' then 's'
  else if 0xFF01 ≤ c.toNat ∧ c.toNat ≤ 0xFF5E then (Char.ofNat (c.toNat - 0xFEE0)).toLower
  else c.toLower

/-- The character stands in a domain as it is. -/
def isSettled (c : Char) : Bool := domainForm c = c && !isIgnorable c && !isUnmappable c

/-- A label is acceptable: one with the marker of a transcribed label stands for a text that needs
the transcription and whose characters are in the form of a domain already. -/
def isLabel (label : List Char) : Bool :=
  match label with
  | 'x' :: 'n' :: '-' :: '-' :: transcribed =>
    match Punycode.decode? transcribed with
    | some text => text.any (fun c => 0x80 ≤ c.toNat) && text.all isSettled
    | none => false
  | _ => true

/-- The domain that a text between slashes stands for. -/
def readDomain (text : List Char) : Except Fault (List Char) :=
  match Text.Utf8.decode? (Percent.decode (Text.Utf8.encode text)) with
  | none => .error .invalidDomain
  | some decoded =>
    let domain := (decoded.filter (fun c => !isIgnorable c)).map domainForm
    if domain.any isForbiddenInDomain || domain.any isUnmappable
        || !(Text.fields isDot domain).all isLabel then .error .invalidDomain
    else .ok domain

/-- The address between brackets. -/
def readBracketed (text : List Char) : Except Fault Host :=
  if text.getLast? = some ']' ∧ isGrouped text.dropLast then .ok .address
  else .error .invalidGroups

/-- The host of a scheme with domains. -/
def readHost (text : List Char) : Except Fault Host :=
  match text with
  | '[' :: rest => readBracketed rest
  | _ => do
    let domain ← readDomain text
    if domain.isEmpty then .error .emptyHost
    else if endsInNumber domain then
      if isQuad domain then return .address else .error .invalidQuad
    else return .name domain

/-- The host of a scheme without domains. -/
def readOpaqueHost (text : List Char) : Except Fault Host :=
  match text with
  | '[' :: rest => readBracketed rest
  | [] => .ok .absent
  | _ => if text.any isForbidden then .error .invalidHostCharacter else .ok (.name text)

/-- The name by which a machine calls itself. -/
def localName : List Char := "localhost".toList

/-- The host leads to no other machine. -/
def Host.isLocal (host : Host) : Bool := host = .absent || host = .name localName

end LspProxy.Uri
