import LspProxy.Text.Fields

/-!
# Path segments

The path of a URI is cut at its separators, and the pieces are taken in one after the other. A piece
for the current place adds nothing and a piece for the place above takes the last segment away,
unless that one names a drive; at the end of the path either leaves an empty segment, so that the
path still ends in a separator. A path may start at a drive, whose mark is a colon in the end.
-/
namespace LspProxy.Uri

/-- A piece for the current place, its dot possibly escaped. -/
def isCurrent (piece : List Char) : Bool :=
  let lower := piece.map Char.toLower
  lower = ['.'] || lower = ['%', '2', 'e']

/-- A piece for the place above. -/
def isParent (piece : List Char) : Bool :=
  match piece.map Char.toLower with
  | '.' :: rest => isCurrent rest
  | '%' :: '2' :: 'e' :: rest => isCurrent rest
  | _ => false

/-- The mark after a drive letter. -/
def isDriveMark (c : Char) : Bool := c = ':' || c = '|'

/-- The segment names a drive. -/
def isDrive : List Char → Bool
  | [letter, mark] => letter.isAlpha && isDriveMark mark
  | letter :: mark :: '\\' :: _ => letter.isAlpha && isDriveMark mark
  | _ => false

/-- The segments, last first, after one for the place above. -/
def ascend : List (List Char) → List (List Char)
  | [] => []
  | last :: others => if isDrive last then last :: others else others

/-- Take in the pieces of a path; the segments so far stand last first. -/
def resolveFrom (segments : List (List Char)) : List (List Char) → List (List Char)
  | [] => segments
  | piece :: rest =>
    let next :=
      if isParent piece then
        if rest.isEmpty then [] :: ascend segments else ascend segments
      else if isCurrent piece then
        if rest.isEmpty then [] :: segments else segments
      else piece :: segments
    resolveFrom next rest

/-- The segments that the pieces of a path lead to. -/
def resolve (pieces : List (List Char)) : List (List Char) := (resolveFrom [] pieces).reverse

/-- The path starts at a drive: its very first segment names one. -/
def startsAtDrive : List (List Char) → Bool
  | first :: _ => first.length = 2 && isDrive first
  | [] => false

/-- Segments in which a drive at the start has a colon for its mark. -/
def markDrive : List (List Char) → List (List Char)
  | [letter, mark] :: rest => (if isDrive [letter, mark] then [letter, ':'] else [letter, mark]) :: rest
  | segments => segments

/-- Segments without the empty ones at their start; one segment is always left. -/
def withoutLeadingEmpty (segments : List (List Char)) : List (List Char) :=
  match segments.dropWhile List.isEmpty with
  | [] => [[]]
  | rest => rest

example : resolve ["a".toList, "..".toList, "b".toList, "%2E".toList] = ["b".toList, []] := by decide
example : resolve ["C:".toList, ".%2e".toList] = ["C:".toList, []] := by decide
example : markDrive ["C|".toList, "a|".toList] = ["C:".toList, "a|".toList] := by decide
example : markDrive [[], "C|".toList] = [[], "C|".toList] := by decide

end LspProxy.Uri
