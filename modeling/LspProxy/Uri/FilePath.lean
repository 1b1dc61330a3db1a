import LspProxy.Disk.Path
import LspProxy.Uri.Basic

/-!
# URIs of files

A URI whose host is this machine stands for the path made of its segments, each with its escapes
read. The scheme does not matter. A path is written as a file URI by its components, with everything
escaped that a reader would take for more than part of a name.
-/
namespace LspProxy.Uri

/-- The bytes of one segment. -/
def segmentBytes (segment : List Char) : Bytes := Percent.decode (Text.Utf8.encode segment)

/-- A path that ends in a drive is the root of the drive. -/
def closeDrive (path : Path) : Path :=
  match path.reverse with
  | mark :: letter :: _ :: _ =>
    if (mark = 0x3A ∨ mark = 0x7C) ∧ (Char.ofNat letter.toNat).isAlpha then path ++ [Path.slash]
    else path
  | _ => path

/-- The path that a URI stands for. -/
def toPath? (uri : Uri) : Option Path :=
  if uri.host.isLocal ∧ uri.segments ≠ [] then
    some (closeDrive (Path.ofComponents (uri.segments.map segmentBytes)))
  else none

/-- The bytes that are escaped in a name: controls, all that is not ASCII, and marks with a meaning
of their own. -/
def isEscaped (b : UInt8) : Bool :=
  b < 0x20 || 0x7F ≤ b || b = 0x20 || b = 0x22 || b = 0x23 || b = 0x25 || b = 0x2F || b = 0x3C
    || b = 0x3E || b = 0x3F || b = 0x5C || b = 0x60 || b = 0x7B || b = 0x7D

/-- One ASCII character for each byte. -/
def characters (bytes : Bytes) : List Char := bytes.map fun b => Char.ofNat b.toNat

/-- The file URI of an absolute path. -/
def ofPath (path : Path) : String :=
  let names := path.components.map (Percent.encode isEscaped)
  let written := if names = [] then [Path.slash] else Path.ofComponents names
  "file://" ++ String.ofList (characters written)

/-- Reading undoes the escapes of a name. -/
theorem decode_encode_name (name : Bytes) :
    Percent.decode (Percent.encode isEscaped name) = name :=
  Percent.decode_encode (by decide) name

example : ofPath [0x2F, 0x61, 0x20, 0xC3, 0xA9] = "file:///a%20%C3%A9" := by decide +kernel

end LspProxy.Uri
