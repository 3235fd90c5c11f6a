import Ketscript.Text.Fields

/-! Fields of a text. Cutting a text at a separator and joining pieces with it undo each other: every text is
    its fields joined, and pieces without the separator are the fields of their join. -/

namespace Ketscript.Text

/-- A fold that puts each element in front of the first piece, or opens a new piece at a separator, cuts a list at
    its separators. -/
theorem foldr_eq_splitOn {α : Type} [BEq α] {sep : α} {cons : α → List (List α) → List (List α)}
    (hcons : ∀ a piece rest, cons a (piece :: rest) =
      if a == sep then [] :: piece :: rest else (a :: piece) :: rest) (as : List α) :
    as.foldr cons [[]] = as.splitOn sep := by
  induction as with
  | nil => rfl
  | cons a as ih =>
    obtain ⟨piece, rest, hpieces⟩ := List.exists_cons_of_ne_nil (List.splitOn_ne_nil sep as)
    rw [List.foldr_cons, ih, List.splitOn_cons_eq_if_modifyHead, hpieces, hcons, List.modifyHead_cons]

theorem splitChars_eq_splitOn (sep : Char) (cs : List Char) : splitChars sep cs = cs.splitOn sep :=
  foldr_eq_splitOn (fun c piece rest => by by_cases hc : c = sep <;> simp [consField, hc]) cs

theorem map_toList_fields (sep : Char) (s : String) : (fields sep s).map String.toList = s.toList.splitOn sep := by
  rw [fields, splitChars_eq_splitOn, List.map_map]
  simp [Function.comp_def]

/-- A text is its fields joined. -/
theorem intercalate_fields (sep : Char) (s : String) : (String.singleton sep).intercalate (fields sep s) = s := by
  apply String.toList_injective
  rw [String.toList_intercalate, map_toList_fields, String.toList_singleton, List.intercalate_splitOn]

/-- Pieces without the separator are the fields of their join. -/
theorem fields_intercalate {sep : Char} {pieces : List String} (hne : pieces ≠ [])
    (h : ∀ piece ∈ pieces, sep ∉ piece.toList) :
    fields sep ((String.singleton sep).intercalate pieces) = pieces := by
  have hpieces : ∀ piece ∈ pieces.map String.toList, sep ∉ piece := by
    intro piece hpiece
    obtain ⟨s, hs, rfl⟩ := List.mem_map.mp hpiece
    exact h s hs
  refine (List.map_inj_right fun _ _ => String.toList_injective).mp ?_
  rw [map_toList_fields, String.toList_intercalate, String.toList_singleton,
    List.splitOn_intercalate sep hpieces (by simpa using hne)]

end Ketscript.Text
