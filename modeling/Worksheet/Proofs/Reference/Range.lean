import Mathlib
import Worksheet.Proofs.Reference.Name
import Worksheet.Proofs.Reference.Pattern

/-!
# Ranges in a text

Behind the name of a range, where an operand may end, the name is found whole: each of its three
forms is one that the pattern of references describes.
-/

set_option autoImplicit false

namespace Worksheet

namespace Pattern

theorem name_mem_cell (named : Cell) : named.name ∈ cell :=
  mem_cell_iff.mpr ⟨columnLetters named.column,
    ⟨columnLetters_ne_nil _, fun _ => isAlpha_of_mem_columnLetters⟩, rowDigits named.row,
    ⟨rowDigits_ne_nil _, fun _ => isDigit_of_mem_rowDigits⟩, rfl⟩

theorem corners_mem_range (a b : Cell) : a.name ++ ':' :: b.name ∈ range := by
  refine .inl (.inl (mem_corners_iff.mpr ⟨_, name_mem_cell a, [':'], ?_, _, name_mem_cell b, ?_⟩))
  · have none : ([] : List Char) ∈ blanks := fun _ member => by cases member
    exact mem_spacedColon_iff.mpr ⟨[], none, [], none, rfl⟩
  · simp

theorem columns_mem_range (a b : Nat) : columnLetters a ++ ':' :: columnLetters b ∈ range := by
  have letters (column : Nat) : columnLetters column ∈ several Char.isAlpha :=
    ⟨columnLetters_ne_nil column, fun _ => isAlpha_of_mem_columnLetters⟩
  exact .inl (.inr (mem_pair_iff.mpr ⟨_, letters a, _, letters b, rfl⟩))

theorem rows_mem_range (a b : Nat) : rowDigits a ++ ':' :: rowDigits b ∈ range := by
  have digits (row : Nat) : rowDigits row ∈ several Char.isDigit :=
    ⟨rowDigits_ne_nil row, fun _ => isDigit_of_mem_rowDigits⟩
  exact .inr (mem_pair_iff.mpr ⟨_, digits a, _, digits b, rfl⟩)

theorem name_mem_range {named : Range} (isRead : named.IsRead) : named.name ∈ range := by
  rcases isRead.cases with ⟨a, b, _, _, _, spelled⟩ | ⟨a, b, _, _, _, spelled⟩ |
    ⟨a, b, _, _, _, spelled⟩
  · exact spelled ▸ corners_mem_range a b
  · exact spelled ▸ columns_mem_range a b
  · exact spelled ▸ rows_mem_range a b

end Pattern

theorem Piece.reference?_of_range {rest : List Char} (ends : EndsOperand rest) {range : Range}
    (isRead : range.IsRead) : reference? (range.name ++ rest) = some (.range range.name) := by
  have found : Matches none (range.name ++ rest) (.range range.name) rest :=
    .range rfl ⟨rfl, Pattern.name_mem_range isRead, ends.edge⟩
  exact (matches_iff.mp found).2.1

end Worksheet
