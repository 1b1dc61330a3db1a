import LspProxy.Proofs.Disk.Names
import LspProxy.Uri.FilePath

/-!
# The URIs of paths

A path is written as a URI component by component, each escaped so far that no slash is left in it. So the
names of what is written are the escaped components, the empty row of components apart, which is written as
one slash. As escapes can be read back, two paths have one URI only if they have the same components
(`ofPath_inj`).
-/
namespace LspProxy

namespace Path

theorem names_append_ofComponents {name : Bytes} {components : List Bytes}
    (plain : ∀ name ∈ components, slash ∉ name) (unslashed : slash ∉ name) :
    names (name ++ ofComponents components) = name :: components := by
  induction components generalizing name with
  | nil =>
    rw [ofComponents, List.flatMap_nil, List.append_nil]
    exact fields_of_unslashed unslashed
  | cons first others inductionHypothesis =>
    obtain ⟨unslashed', plain'⟩ := List.forall_mem_cons.mp plain
    have written : ofComponents (first :: others) = slash :: (first ++ ofComponents others) := rfl
    rw [written, names, Text.fields_append_cons (inseparable_of_unslashed unslashed) rfl]
    exact congrArg _ (inductionHypothesis plain' unslashed')

/-- The names of a path that is made of names. -/
theorem names_ofComponents {components : List Bytes} (plain : ∀ name ∈ components, slash ∉ name) :
    (ofComponents components).names = [] :: components :=
  names_append_ofComponents plain List.not_mem_nil

end Path

namespace Uri

/-! ## Escaped names -/

theorem upper_ne_slash {digit : Nat} (bounded : digit < 16) :
    Text.Hexadecimal.upper digit ≠ Path.slash := by
  decide +revert

/-- No slash is left in an escaped name. -/
theorem slash_not_mem_encode (name : Bytes) : Path.slash ∉ Percent.encode isEscaped name := by
  intro among
  obtain ⟨b, _, among⟩ := List.mem_flatMap.mp among
  by_cases escaped : isEscaped b = true
  · rw [if_pos escaped] at among
    have bounded : b.toNat < 256 := b.toNat_lt
    simp only [Percent.escape, List.mem_cons, List.not_mem_nil, or_false] at among
    rcases among with same | same | same
    · exact absurd same (by decide)
    · exact upper_ne_slash (by omega) same.symm
    · exact upper_ne_slash (by omega) same.symm
  · rw [if_neg escaped] at among
    obtain rfl := List.mem_singleton.mp among
    exact escaped rfl

/-- A name of something is not escaped into nothing. -/
theorem encode_ne_nil {name : Bytes} (given : name ≠ []) : Percent.encode isEscaped name ≠ [] := by
  intro empty
  have read := decode_encode_name name
  rw [empty] at read
  exact given read.symm

/-- The escaped components of a path. -/
def writtenNames (path : Path) : List Bytes := path.components.map (Percent.encode isEscaped)

theorem slash_not_mem_writtenNames {path : Path} : ∀ name ∈ writtenNames path, Path.slash ∉ name := by
  intro name among
  obtain ⟨component, _, rfl⟩ := List.mem_map.mp among
  exact slash_not_mem_encode component

theorem ne_nil_of_mem_writtenNames {path : Path} : ∀ name ∈ writtenNames path, name ≠ [] := by
  intro name among
  obtain ⟨component, counts, rfl⟩ := List.mem_map.mp among
  have counts := List.mem_filter.mp counts
  exact encode_ne_nil (of_decide_eq_true counts.2).1

/-- The escaped components can be read back. -/
theorem writtenNames_inj {first second : Path} (same : writtenNames first = writtenNames second) :
    first.components = second.components := by
  have read (path : Path) : (writtenNames path).map Percent.decode = path.components := by
    unfold writtenNames
    rw [List.map_map]
    exact List.map_id'' decode_encode_name _
  rw [← read first, same, read second]

/-! ## URIs -/

/-- The character for a byte has its number. -/
theorem toNat_character (b : UInt8) : (Char.ofNat b.toNat).toNat = b.toNat := by
  have bounded : b.toNat < 256 := b.toNat_lt
  have valid : b.toNat.isValidChar := .inl (by omega)
  rw [Char.ofNat, dif_pos valid]
  rfl

/-- A character for a byte belongs to no other byte. -/
theorem characters_inj {first second : Bytes} (same : characters first = characters second) :
    first = second := by
  apply (List.map_inj_right _).mp same
  intro b c same
  apply UInt8.toNat_inj.mp
  rw [← toNat_character b, same, toNat_character c]

/-- Two paths have one URI only if they have the same components. -/
theorem ofPath_inj {first second : Path} (same : ofPath first = ofPath second) :
    first.components = second.components := by
  have written (path : Path) : ofPath path = "file://" ++ String.ofList (characters
      (if writtenNames path = [] then [Path.slash] else Path.ofComponents (writtenNames path))) := rfl
  have names (path : Path) : (Path.ofComponents (writtenNames path)).names = [] :: writtenNames path :=
    Path.names_ofComponents slash_not_mem_writtenNames
  -- a single slash has an empty name behind it, and no component is written as that
  have lone (path : Path) (slash : [Path.slash] = Path.ofComponents (writtenNames path)) : False := by
    have behind : [[], []] = [] :: writtenNames path := by rw [← names path, ← slash]; rfl
    have empty : ([] : Bytes) ∈ writtenNames path := by rw [← (List.cons.inj behind).2]; simp
    exact ne_nil_of_mem_writtenNames [] empty rfl
  rw [written, written, String.append_right_inj, String.ofList_inj] at same
  have same := characters_inj same
  apply writtenNames_inj
  by_cases empty : writtenNames first = []
  · by_cases empty' : writtenNames second = []
    · rw [empty, empty']
    · rw [if_pos empty, if_neg empty'] at same
      exact (lone second same).elim
  · by_cases empty' : writtenNames second = []
    · rw [if_neg empty, if_pos empty'] at same
      exact (lone first same.symm).elim
    · rw [if_neg empty, if_neg empty'] at same
      have behind := names first
      rw [same, names second] at behind
      exact (List.cons.inj behind).2.symm

end Uri

end LspProxy
