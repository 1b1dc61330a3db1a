/-!
# Fields between separators

A sequence is cut at every separator, so `n` separators make `n + 1` fields, empty ones included.
Paths are cut at slashes, domains at dots and texts at line feeds by this one function.
-/
namespace LspProxy.Text

/-- The fields of a sequence. There is always one more of them than there are separators. -/
def fields {α : Type} (isSeparator : α → Bool) : List α → List (List α)
  | [] => [[]]
  | a :: rest =>
    match isSeparator a, fields isSeparator rest with
    | true, others => [] :: others
    | false, [] => [[a]]
    | false, first :: others => (a :: first) :: others

theorem fields_ne_nil {α : Type} (isSeparator : α → Bool) (items : List α) :
    fields isSeparator items ≠ [] := by
  cases items with
  | nil => simp [fields]
  | cons a rest => unfold fields; split <;> simp

/-- A sequence without separators is one field. -/
theorem fields_eq_singleton {α : Type} {isSeparator : α → Bool} {items : List α}
    (plain : ∀ a ∈ items, isSeparator a = false) : fields isSeparator items = [items] := by
  induction items with
  | nil => rfl
  | cons a rest inductionHypothesis =>
    simp [fields, plain a (by simp), inductionHypothesis fun b h => plain b (by simp [h])]

/-- A sequence without separators, a separator, and more: the first field ends there. -/
theorem fields_append_cons {α : Type} {isSeparator : α → Bool} {first rest : List α} {mark : α}
    (plain : ∀ a ∈ first, isSeparator a = false) (separates : isSeparator mark = true) :
    fields isSeparator (first ++ mark :: rest) = first :: fields isSeparator rest := by
  induction first with
  | nil => simp [fields, separates]
  | cons a others inductionHypothesis =>
    simp [fields, plain a (by simp), inductionHypothesis fun b h => plain b (by simp [h])]

example : fields (· == '/') "a//b".toList = ["a".toList, [], "b".toList] := by decide
example : fields (· == '/') [] = [[]] := by decide

end LspProxy.Text
