import Mathlib
import Worksheet.Proofs.Number.ReadBack
import Worksheet.Proofs.Reference.Word
import Worksheet.Proofs.Script.Arguments
import Worksheet.Reference.Range

/-!
# Names of cells and ranges

A cell or a range is read back from its name. Letters are digits from one to twenty-six, so the
letters of a column come to its ordinal. A range that has been read has its corners in order, and
where it is open its end has no index of its own; so its name has one of three forms, and each form
is read in one way only.
-/

set_option autoImplicit false

namespace Worksheet

theorem capital_spec {place : Nat} (small : place < 26) :
    (capital place).isAlpha = true ∧ letterOrdinal (capital place) = place + 1 := by
  have all : ∀ place : Fin 26, (capital place).isAlpha = true ∧
      letterOrdinal (capital place) = place + 1 := by decide +kernel
  exact all ⟨place, small⟩

theorem lettersOrdinal_append (letters : List Char) (letter : Char) :
    lettersOrdinal (letters ++ [letter]) = 26 * lettersOrdinal letters + letterOrdinal letter := by
  simp [lettersOrdinal]

theorem columnLetters_ne_nil (column : Nat) : columnLetters column ≠ [] := by
  rw [columnLetters]
  split <;> simp

theorem isAlpha_of_mem_columnLetters {column : Nat} {c : Char} (member : c ∈ columnLetters column) :
    c.isAlpha = true := by
  induction column using columnLetters.induct with
  | case1 column small =>
      rw [columnLetters, if_pos small] at member
      rw [List.mem_singleton.mp member]
      exact (capital_spec small).1
  | case2 column large ih =>
      rw [columnLetters, if_neg large] at member
      rcases List.mem_append.mp member with before | last
      · exact ih before
      · rw [List.mem_singleton.mp last]
        exact (capital_spec (Nat.mod_lt _ (by omega))).1

theorem lettersOrdinal_columnLetters (column : Nat) :
    lettersOrdinal (columnLetters column) = column + 1 := by
  induction column using columnLetters.induct with
  | case1 column small =>
      rw [columnLetters, if_pos small]
      change 26 * 0 + letterOrdinal (capital column) = column + 1
      rw [(capital_spec small).2, Nat.mul_zero, Nat.zero_add]
  | case2 column large ih =>
      rw [columnLetters, if_neg large, lettersOrdinal_append, ih,
        (capital_spec (Nat.mod_lt _ (by omega))).2]
      omega

theorem indexOfOrdinal?_eq_some_iff {ordinal index : Nat} :
    indexOfOrdinal? ordinal = some index ↔ ordinal = index + 1 ∧ index < greatestIndex := by
  rw [indexOfOrdinal?, Option.ite_none_right_eq_some, Option.some.injEq]
  omega

theorem column?_eq_some_iff {letters : List Char} {column : Nat} :
    column? letters = some column ↔
      (letters ≠ [] ∧ ∀ c ∈ letters, c.isAlpha = true) ∧
        lettersOrdinal letters = column + 1 ∧ column < greatestIndex := by
  rw [column?, Option.ite_none_right_eq_some, indexOfOrdinal?_eq_some_iff, List.all_eq_true]

theorem column?_columnLetters {column : Nat} (below : column < greatestIndex) :
    column? (columnLetters column) = some column :=
  column?_eq_some_iff.mpr ⟨⟨columnLetters_ne_nil column, fun _ => isAlpha_of_mem_columnLetters⟩,
    lettersOrdinal_columnLetters column, below⟩

theorem lt_of_column? {letters : List Char} {column : Nat} (read : column? letters = some column) :
    column < greatestIndex :=
  (column?_eq_some_iff.mp read).2.2

theorem column?_eq_none {text : List Char} (other : ∀ c ∈ text.head?, c.isAlpha = false) :
    column? text = none := by
  refine Option.eq_none_iff_forall_ne_some.mpr fun column read => ?_
  obtain ⟨⟨nonempty, letters⟩, _⟩ := column?_eq_some_iff.mp read
  obtain ⟨first, rest, rfl⟩ := List.exists_cons_of_ne_nil nonempty
  have letter := letters first List.mem_cons_self
  rw [other first rfl] at letter
  cases letter

theorem isDigit_of_mem_rowDigits {row : Nat} {c : Char} (member : c ∈ rowDigits row) :
    c.isDigit = true :=
  isDigit_of_mem_digitChars member

theorem isAlpha_rowDigits_head (row : Nat) :
    ∀ c ∈ (rowDigits row).head?, c.isAlpha = false :=
  fun _ member => isAlpha_of_isDigit (isDigit_of_mem_rowDigits (List.mem_of_mem_head? member))

theorem rowDigits_ne_nil (row : Nat) : rowDigits row ≠ [] :=
  digitChars_ne_nil _

theorem row?_eq_some_iff {digits : List Char} {row : Nat} :
    row? digits = some row ↔
      (digits ≠ [] ∧ ∀ c ∈ digits, c.isDigit = true) ∧
        Nat.ofDigitChars 10 digits 0 = row + 1 ∧ row < greatestIndex := by
  rw [row?, Numeral.natural?, Option.bind_eq_some_iff]
  simp only [Option.ite_none_right_eq_some, Option.some.injEq, and_assoc, exists_eq_left',
    exists_and_left, indexOfOrdinal?_eq_some_iff, List.all_eq_true]

theorem row?_rowDigits {row : Nat} (below : row < greatestIndex) :
    row? (rowDigits row) = some row :=
  row?_eq_some_iff.mpr ⟨⟨rowDigits_ne_nil row, fun _ => isDigit_of_mem_rowDigits⟩,
    ofDigitChars_digitChars (row + 1), below⟩

theorem lt_of_row? {digits : List Char} {row : Nat} (read : row? digits = some row) :
    row < greatestIndex :=
  (row?_eq_some_iff.mp read).2.2

theorem row?_nil : row? [] = none :=
  rfl

def Cell.IsNamed (cell : Cell) : Prop :=
  cell.column < greatestIndex ∧ cell.row < greatestIndex

theorem trim_of_alphanumeric {text : List Char} (alphanumeric : ∀ c ∈ text, c.isAlphanum = true) :
    trim text = text :=
  trim_of_visible fun c member =>
    isBlank_of_isNameChar (Piece.isNameChar_of_isAlphanum (alphanumeric c member))

theorem isAlphanum_columnLetters (column : Nat) :
    ∀ c ∈ columnLetters column, c.isAlphanum = true :=
  fun c member => Piece.isAlphanum_of_isAlpha c (isAlpha_of_mem_columnLetters member)

theorem isAlphanum_rowDigits (row : Nat) : ∀ c ∈ rowDigits row, c.isAlphanum = true :=
  fun c member => Piece.isAlphanum_of_isDigit c (isDigit_of_mem_rowDigits member)

theorem Cell.isAlphanum_name (cell : Cell) : ∀ c ∈ cell.name, c.isAlphanum = true := by
  intro c member
  rcases List.mem_append.mp member with letter | digit
  · exact isAlphanum_columnLetters _ c letter
  · exact isAlphanum_rowDigits _ c digit

theorem Cell.ofName?_name {cell : Cell} (named : cell.IsNamed) :
    Cell.ofName? cell.name = some cell := by
  obtain ⟨taken, dropped⟩ := @takeWhile_run Char.isAlpha (columnLetters cell.column)
    (rowDigits cell.row) (fun _ => isAlpha_of_mem_columnLetters) (isAlpha_rowDigits_head cell.row)
  rw [Cell.ofName?, Cell.name, taken, dropped, column?_columnLetters named.1,
    row?_rowDigits named.2]
  rfl

theorem Cell.read?_name {cell : Cell} (named : cell.IsNamed) :
    Cell.read? cell.name = some cell := by
  rw [Cell.read?, trim_of_alphanumeric cell.isAlphanum_name, Cell.ofName?_name named]

theorem Cell.isNamed_of_read? {text : List Char} {cell : Cell} (read : Cell.read? text = some cell) :
    cell.IsNamed := by
  obtain ⟨column, columnRead, read⟩ := Option.bind_eq_some_iff.mp read
  obtain ⟨row, rowRead, read⟩ := Option.bind_eq_some_iff.mp read
  obtain rfl := Option.some.inj read
  exact ⟨lt_of_column? columnRead, lt_of_row? rowRead⟩

namespace Range

/-- The range can be read from some text. -/
def IsRead (range : Range) : Prop :=
  ∃ text, read? text = some range

def readParts? (left right : List Char) : Option Range :=
  (do return spanning (← Cell.read? left) (← Cell.read? right)) <|>
    (do return columns (← column? left) (← column? right)) <|>
    (do return rows (← row? left) (← row? right))

theorem read?_colon {left : List Char} (single : ':' ∉ left) (right : List Char) :
    read? (left ++ ':' :: right) = readParts? (trim left) (trim right) := by
  have other : ∀ c ∈ left.dropWhile isBlank, (c != ':') = true := by
    intro c member
    rw [bne_iff_ne]
    rintro rfl
    exact single ((List.dropWhile_sublist isBlank).mem member)
  obtain ⟨taken, dropped⟩ := @takeWhile_run (· != ':') (left.dropWhile isBlank)
    (':' :: trimEnd right) other (by simp)
  rw [read?, trim_append_cons (by decide : isBlank ':' = false), splitColon?, dropped, taken]
  simp only [Option.bind_eq_bind, Option.bind_some, trim_dropWhile, trim_trimEnd]
  rfl

theorem read?_words {left right : List Char} (leftWord : ∀ c ∈ left, c.isAlphanum = true)
    (rightWord : ∀ c ∈ right, c.isAlphanum = true) :
    read? (left ++ ':' :: right) = readParts? left right := by
  have single : ':' ∉ left := by
    intro member
    have colon := leftWord ':' member
    revert colon
    decide
  rw [read?_colon single, trim_of_alphanumeric leftWord, trim_of_alphanumeric rightWord]

/-- A range that has been read has one of three forms, and each has a name of its own form. -/
theorem IsRead.cases {range : Range} (isRead : range.IsRead) :
    (∃ a b : Cell, a.IsNamed ∧ b.IsNamed ∧ spanning a b = range ∧
        range.name = a.name ++ ':' :: b.name) ∨
      (∃ a b, a < greatestIndex ∧ b < greatestIndex ∧ columns a b = range ∧
        range.name = columnLetters a ++ ':' :: columnLetters b) ∨
      ∃ a b, a < greatestIndex ∧ b < greatestIndex ∧ rows a b = range ∧
        range.name = rowDigits a ++ ':' :: rowDigits b := by
  obtain ⟨text, read⟩ := isRead
  obtain ⟨⟨left, right⟩, _, read⟩ := Option.bind_eq_some_iff.mp read
  rw [Option.orElse_eq_some, Option.orElse_eq_some] at read
  rcases read with corners | ⟨_, pair | ⟨_, pair⟩⟩
  · left
    obtain ⟨a, aRead, corners⟩ := Option.bind_eq_some_iff.mp corners
    obtain ⟨b, bRead, corners⟩ := Option.bind_eq_some_iff.mp corners
    obtain rfl := Option.some.inj corners
    obtain ⟨aColumn, aRow⟩ := Cell.isNamed_of_read? aRead
    obtain ⟨bColumn, bRow⟩ := Cell.isNamed_of_read? bRead
    refine ⟨(spanning a b).first, (spanning a b).last, ?_, ?_, ?_, ?_⟩
    · exact ⟨(Nat.min_le_left _ _).trans_lt aColumn, (Nat.min_le_left _ _).trans_lt aRow⟩
    · exact ⟨Nat.max_lt.mpr ⟨aColumn, bColumn⟩, Nat.max_lt.mpr ⟨aRow, bRow⟩⟩
    · simp [spanning]
    · have row : (spanning a b).last.row ≠ greatestIndex := by
        simp only [spanning]
        omega
      have column : (spanning a b).last.column ≠ greatestIndex := by
        simp only [spanning]
        omega
      rw [name, if_neg row, if_neg column]
  · right
    left
    obtain ⟨a, aRead, pair⟩ := Option.bind_eq_some_iff.mp pair
    obtain ⟨b, bRead, pair⟩ := Option.bind_eq_some_iff.mp pair
    obtain rfl := Option.some.inj pair
    have aBelow := lt_of_column? aRead
    have bBelow := lt_of_column? bRead
    refine ⟨min a b, max a b, by omega, by omega, by simp [columns, spanning], ?_⟩
    simp [name, columns, spanning]
  · right
    right
    obtain ⟨a, aRead, pair⟩ := Option.bind_eq_some_iff.mp pair
    obtain ⟨b, bRead, pair⟩ := Option.bind_eq_some_iff.mp pair
    obtain rfl := Option.some.inj pair
    have aBelow := lt_of_row? aRead
    have bBelow := lt_of_row? bRead
    refine ⟨min a b, max a b, by omega, by omega, by simp [rows, spanning], ?_⟩
    have row : (rows a b).last.row ≠ greatestIndex := by
      simp only [rows, spanning]
      omega
    rw [name, if_neg row]
    simp [rows, spanning]

theorem isAlphanum_or_colon (range : Range) {c : Char} (member : c ∈ range.name) :
    c.isAlphanum = true ∨ c = ':' := by
  have parts {left right : List Char} (leftWord : ∀ d ∈ left, d.isAlphanum = true)
      (rightWord : ∀ d ∈ right, d.isAlphanum = true) (inside : c ∈ left ++ ':' :: right) :
      c.isAlphanum = true ∨ c = ':' := by
    rcases List.mem_append.mp inside with inLeft | inside
    · exact .inl (leftWord c inLeft)
    rcases List.mem_cons.mp inside with same | inRight
    · exact .inr same
    · exact .inl (rightWord c inRight)
  unfold name at member
  split at member
  · exact parts (isAlphanum_columnLetters _) (isAlphanum_columnLetters _) member
  split at member
  · exact parts (isAlphanum_rowDigits _) (isAlphanum_rowDigits _) member
  · exact parts range.first.isAlphanum_name range.last.isAlphanum_name member

theorem read?_name {range : Range} (isRead : range.IsRead) : read? range.name = some range := by
  rcases isRead.cases with ⟨a, b, aNamed, bNamed, same, spelled⟩ |
    ⟨a, b, aBelow, bBelow, same, spelled⟩ | ⟨a, b, aBelow, bBelow, same, spelled⟩
  · rw [spelled, read?_words a.isAlphanum_name b.isAlphanum_name, readParts?, Cell.read?_name aNamed,
      Cell.read?_name bNamed, ← same]
    rfl
  · have noCell : Cell.read? (columnLetters a) = none := by
      obtain ⟨taken, dropped⟩ := @takeWhile_run Char.isAlpha (columnLetters a) []
        (fun _ => isAlpha_of_mem_columnLetters) (by simp)
      rw [List.append_nil] at taken dropped
      rw [Cell.read?, trim_of_alphanumeric (isAlphanum_columnLetters a), Cell.ofName?, taken,
        dropped, row?_nil, column?_columnLetters aBelow]
      rfl
    rw [spelled, read?_words (isAlphanum_columnLetters a) (isAlphanum_columnLetters b),
      readParts?, noCell, column?_columnLetters aBelow, column?_columnLetters bBelow, ← same]
    rfl
  · have noColumn : column? (rowDigits a) = none := column?_eq_none (isAlpha_rowDigits_head a)
    have noCell : Cell.read? (rowDigits a) = none := by
      obtain ⟨taken, _⟩ := @takeWhile_run Char.isAlpha [] (rowDigits a) (by simp)
        (isAlpha_rowDigits_head a)
      rw [List.nil_append] at taken
      rw [Cell.read?, trim_of_alphanumeric (isAlphanum_rowDigits a), Cell.ofName?, taken]
      rfl
    rw [spelled, read?_words (isAlphanum_rowDigits a) (isAlphanum_rowDigits b), readParts?,
      noCell, noColumn, row?_rowDigits aBelow, row?_rowDigits bBelow, ← same]
    rfl

end Range

end Worksheet
