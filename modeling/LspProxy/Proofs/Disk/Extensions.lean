import LspProxy.Proofs.Disk.Parents

/-!
# Names and their extensions

A name is cut at its last dot. A dot at its start cuts nothing, and neither does a name without a dot
(`cutName_cases`). So what stands before the cut is a part of the name that is not empty, and it is a given
name exactly if the whole is that name with an extension (`cutName_stem_iff`).

The name of a path is never the one for the place above. What is left of it before the cut may well be
(`stem?_eq_some_iff`).
-/
namespace LspProxy.Path

variable {path : Path} {name stem extension : Bytes}

/-- Looked through from its end, a name without a dot is passed as a whole. -/
theorem undotted_reverse (plain : 0x2E ∉ name) : ∀ b ∈ name.reverse, decide (b ≠ 0x2E) = true := by
  intro b among
  apply decide_eq_true
  rintro rfl
  exact plain (List.mem_reverse.mp among)

/-- A name is cut at its last dot, if something stands before it. -/
theorem cutName_append (last : 0x2E ∉ extension) :
    cutName (stem ++ 0x2E :: extension) =
      if stem = [] then (stem ++ 0x2E :: extension, none) else (stem, some extension) := by
  have behind : ((stem ++ 0x2E :: extension).reverse.takeWhile (· ≠ 0x2E)).reverse = extension := by
    rw [List.reverse_append, List.reverse_cons, List.append_assoc,
      List.takeWhile_append_of_pos (undotted_reverse last)]
    simp
  have before : ((stem ++ 0x2E :: extension).take
      ((stem ++ 0x2E :: extension).length - extension.length)).dropLast = stem := by
    have length : (stem ++ 0x2E :: extension).length - extension.length = (stem ++ [0x2E]).length := by
      simp only [List.length_append, List.length_cons, List.length_nil]
      omega
    have parts : stem ++ 0x2E :: extension = (stem ++ [0x2E]) ++ extension := by simp
    rw [length, parts, List.take_left', List.dropLast_concat]
    rfl
  unfold cutName
  simp only [behind, before]

/-- A name without a dot is not cut. -/
theorem cutName_plain (plain : 0x2E ∉ name) : cutName name = (name, none) := by
  have whole : name.reverse.takeWhile (· ≠ 0x2E) = name.reverse := by
    rw [← List.append_nil name.reverse, List.takeWhile_append_of_pos (undotted_reverse plain),
      List.takeWhile_nil]
  unfold cutName
  rw [whole]
  simp

/-- A name with a dot has a last one. -/
theorem exists_last_dot (dotted : 0x2E ∈ name) :
    ∃ stem extension, name = stem ++ 0x2E :: extension ∧ 0x2E ∉ extension := by
  obtain ⟨behind, before, same, last⟩ := List.eq_append_cons_of_mem (List.mem_reverse.mpr dotted)
  refine ⟨before.reverse, behind.reverse, ?_, fun among => last (List.mem_reverse.mp among)⟩
  rw [← List.reverse_reverse name, same]
  simp

/-- A name is left whole, or it is cut at its last dot behind something. -/
theorem cutName_cases (name : Bytes) :
    cutName name = (name, none) ∨
      ∃ stem extension, name = stem ++ 0x2E :: extension ∧ stem ≠ [] ∧ 0x2E ∉ extension ∧
        cutName name = (stem, some extension) := by
  by_cases dotted : 0x2E ∈ name
  · obtain ⟨stem, extension, rfl, last⟩ := exists_last_dot dotted
    have cut : cutName (stem ++ 0x2E :: extension) = _ := cutName_append last
    split at cut
    · exact .inl cut
    · rename_i given
      exact .inr ⟨stem, extension, rfl, given, last, cut⟩
  · exact .inl (cutName_plain dotted)

/-- What a name has as its extension. -/
theorem cutName_extension_iff :
    (cutName name).2 = some extension ↔
      ∃ stem, name = stem ++ 0x2E :: extension ∧ stem ≠ [] ∧ 0x2E ∉ extension := by
  constructor
  · intro cut
    rcases cutName_cases name with whole | ⟨stem, found, parts, given, last, cut'⟩
    · rw [whole] at cut
      exact absurd cut (by simp)
    · rw [cut'] at cut
      obtain rfl := Option.some.inj cut
      exact ⟨stem, parts, given, last⟩
  · rintro ⟨stem, rfl, given, last⟩
    rw [cutName_append last, if_neg given]

/-- What stands before the cut is another name than the whole exactly if the whole is that name with an
extension. -/
theorem cutName_stem_iff (given : stem ≠ []) (other : name ≠ stem) :
    (cutName name).1 = stem ↔ ∃ extension, name = stem ++ 0x2E :: extension ∧ 0x2E ∉ extension := by
  constructor
  · intro cut
    rcases cutName_cases name with whole | ⟨before, extension, parts, _, last, cut'⟩
    · rw [whole] at cut
      exact absurd cut other
    · rw [cut'] at cut
      exact ⟨extension, cut ▸ parts, last⟩
  · rintro ⟨extension, rfl, last⟩
    rw [cutName_append last, if_neg given]

/-- Of a name that is not empty something is left before the cut, and nothing that the name does not hold. -/
theorem cutName_stem (given : name ≠ []) : (cutName name).1 ≠ [] ∧ (cutName name).1 ⊆ name := by
  rcases cutName_cases name with whole | ⟨stem, extension, parts, given', _, cut⟩
  · rw [whole]
    exact ⟨given, List.Subset.refl name⟩
  · rw [cut, parts]
    exact ⟨given', List.subset_append_left stem _⟩

/-- The name of a path counts in it, has no slash, and is not the one for the place above. -/
theorem fileName?_counts (named : path.fileName? = some name) :
    Counts name ∧ name ≠ parent ∧ slash ∉ name := by
  obtain ⟨last, ends, same⟩ := Option.bind_eq_some_iff.mp named
  split at same
  · exact absurd same (by simp)
  · rename_i level
    obtain rfl := Option.some.inj same
    obtain ⟨given, other, unslashed⟩ := mem_components (List.mem_of_getLast? ends)
    exact ⟨⟨given, other⟩, level, unslashed⟩

/-- The stem of a path is what stands before the cut of its name. -/
theorem stem?_eq_some_iff :
    path.stem? = some stem ↔ ∃ name, path.fileName? = some name ∧ (cutName name).1 = stem := by
  unfold stem?
  simp [Option.bind_eq_some_iff]

end LspProxy.Path
