import Mathlib
import Worksheet.Proofs.Reference.Name

/-!
# References and their texts

A cell that has a name is read back from it, and a text is the name of a cell just if it is letters
and digits behind them that come to ordinals of sixty-four bits. A range that has been read has its
corners in order and is read back from its own spelling, whichever of the three it is; which of its
parts stands first in the text does not matter.

Numbers are read and written in sixty-four bits, one digit at a time. Reading overflows just if the
whole number does, since a total never falls as digits are added, and writing what has been read
never overflows: only an end without an index lies at the greatest one, and such an end is not
written.
-/

set_option autoImplicit false

namespace Worksheet

def fits? (number : Nat) : Option Nat :=
  if number < UInt64.size then some number else none

theorem fits?_of_lt {number : Nat} (less : number < UInt64.size) : fits? number = some number :=
  if_pos less

theorem fits?_of_le {number : Nat} (large : UInt64.size ≤ number) : fits? number = none :=
  if_neg (Nat.not_lt.mpr large)

section Total

variable {base : Nat} {value : Char → Nat}

def total (base : Nat) (value : Char → Nat) (start : Nat) (digits : List Char) : Nat :=
  digits.foldl (fun sum digit => base * sum + value digit) start

/-- The same number, if no product and no sum on the way to it exceeds sixty-four bits. -/
def checkedTotal? (base : Nat) (value : Char → Nat) (start : Nat) : List Char → Option Nat
  | [] => some start
  | digit :: rest =>
      (fits? (base * start)).bind fun scaled =>
        (fits? (scaled + value digit)).bind fun next => checkedTotal? base value next rest

theorem le_total (positive : 0 < base) (start : Nat) (digits : List Char) :
    start ≤ total base value start digits := by
  induction digits generalizing start with
  | nil => exact le_rfl
  | cons digit rest ih =>
      have scaled : start ≤ base * start := Nat.le_mul_of_pos_left start positive
      have added : base * start ≤ base * start + value digit := Nat.le_add_right _ _
      exact (scaled.trans added).trans (ih _)

theorem checkedTotal?_eq (positive : 0 < base) {start : Nat} (fits : start < UInt64.size)
    (digits : List Char) :
    checkedTotal? base value start digits = fits? (total base value start digits) := by
  induction digits generalizing start with
  | nil => exact (fits?_of_lt fits).symm
  | cons digit rest ih =>
      have reached : base * start + value digit ≤ total base value start (digit :: rest) :=
        le_total positive _ rest
      rw [checkedTotal?]
      by_cases next : base * start + value digit < UInt64.size
      · have scaled : base * start < UInt64.size := by omega
        rw [fits?_of_lt scaled, Option.bind_some, fits?_of_lt next, Option.bind_some]
        exact ih next
      · have overflow : UInt64.size ≤ base * start + value digit := Nat.not_lt.mp next
        rw [fits?_of_le (overflow.trans reached)]
        by_cases scaled : base * start < UInt64.size
        · rw [fits?_of_lt scaled, Option.bind_some, fits?_of_le overflow]
          rfl
        · rw [fits?_of_le (Nat.not_lt.mp scaled)]
          rfl

end Total

def predecessor? (number : Nat) : Option Nat :=
  if number = 0 then none else some (number - 1)

theorem indexOfOrdinal?_eq_bind (ordinal : Nat) :
    indexOfOrdinal? ordinal = (fits? ordinal).bind predecessor? := by
  unfold indexOfOrdinal? fits? greatestIndex
  by_cases fits : ordinal < UInt64.size
  · rw [if_pos fits, Option.bind_some, predecessor?]
    by_cases zero : ordinal = 0
    · rw [if_pos zero, if_neg (by omega)]
    · rw [if_neg zero, if_pos (by omega)]
  · rw [if_neg fits, if_neg (by omega)]
    rfl

theorem column?_eq_checked (letters : List Char) :
    column? letters =
      if letters ≠ [] ∧ letters.all Char.isAlpha then
        (checkedTotal? 26 letterOrdinal 0 letters).bind predecessor?
      else none := by
  rw [column?, indexOfOrdinal?_eq_bind, checkedTotal?_eq (by omega) (by decide)]
  rfl

namespace Cell

/-- A text is letters and digits behind them, and these come to the ordinals of the cell, which are
at least one and fit in sixty-four bits. -/
def IsSpelledBy (cell : Cell) (text : List Char) : Prop :=
  ∃ letters digits, text = letters ++ digits ∧
    (letters ≠ [] ∧ ∀ c ∈ letters, c.isAlpha = true) ∧
    (digits ≠ [] ∧ ∀ c ∈ digits, c.isDigit = true) ∧
    (1 ≤ lettersOrdinal letters ∧ lettersOrdinal letters < UInt64.size) ∧
    (1 ≤ Nat.ofDigitChars 10 digits 0 ∧ Nat.ofDigitChars 10 digits 0 < UInt64.size) ∧
    cell = ⟨lettersOrdinal letters - 1, Nat.ofDigitChars 10 digits 0 - 1⟩

theorem ofName?_eq_some_iff {cell : Cell} {text : List Char} :
    ofName? text = some cell ↔ cell.IsSpelledBy text := by
  constructor
  · intro read
    obtain ⟨column, columnRead, read⟩ := Option.bind_eq_some_iff.mp read
    obtain ⟨row, rowRead, read⟩ := Option.bind_eq_some_iff.mp read
    obtain rfl := Option.some.inj read
    obtain ⟨letters, columnOrdinal, columnBelow⟩ := column?_eq_some_iff.mp columnRead
    obtain ⟨digits, rowOrdinal, rowBelow⟩ := row?_eq_some_iff.mp rowRead
    unfold greatestIndex at columnBelow rowBelow
    refine ⟨_, _, List.takeWhile_append_dropWhile.symm, letters, digits, ?_, ?_, ?_⟩
    · omega
    · omega
    · rw [columnOrdinal, rowOrdinal, Nat.add_sub_cancel, Nat.add_sub_cancel]
  · rintro ⟨letters, digits, rfl, lettersClass, digitsClass, columnBounds, rowBounds, rfl⟩
    have other : ∀ c ∈ digits.head?, c.isAlpha = false := by
      intro c member
      exact isAlpha_of_isDigit (digitsClass.2 c (List.mem_of_mem_head? member))
    obtain ⟨taken, dropped⟩ := takeWhile_run lettersClass.2 other
    have column : column? letters = some (lettersOrdinal letters - 1) := by
      refine column?_eq_some_iff.mpr ⟨lettersClass, ?_⟩
      unfold greatestIndex
      omega
    have row : row? digits = some (Nat.ofDigitChars 10 digits 0 - 1) := by
      refine row?_eq_some_iff.mpr ⟨digitsClass, ?_⟩
      unfold greatestIndex
      omega
    rw [ofName?, taken, dropped, column, row]
    rfl

/-- Writes the name of a cell, where the number of the row has to fit in sixty-four bits. -/
def written? (cell : Cell) : Option (List Char) :=
  (fits? (cell.row + 1)).map fun number => columnLetters cell.column ++ digitChars number

theorem written?_eq {cell : Cell} (below : cell.row < greatestIndex) :
    cell.written? = some cell.name := by
  unfold greatestIndex at below
  rw [written?, fits?_of_lt (by omega)]
  rfl

end Cell

namespace Range

def written? (range : Range) : Option (List Char) :=
  if range.last.row = greatestIndex then
    some (columnLetters range.first.column ++ ':' :: columnLetters range.last.column)
  else if range.last.column = greatestIndex then
    (fits? (range.first.row + 1)).bind fun first =>
      (fits? (range.last.row + 1)).map fun last => digitChars first ++ ':' :: digitChars last
  else
    range.first.written?.bind fun first =>
      range.last.written?.map fun last => first ++ ':' :: last

/-- Nothing overflows while a range is written whose rows are in order and no greater than the
greatest index. -/
theorem written?_eq {range : Range} (ordered : range.first.row ≤ range.last.row)
    (bounded : range.last.row ≤ greatestIndex) : range.written? = some range.name := by
  unfold written? name
  by_cases openBelow : range.last.row = greatestIndex
  · rw [if_pos openBelow, if_pos openBelow]
  have last : range.last.row < greatestIndex := by omega
  have first : range.first.row < greatestIndex := by omega
  rw [if_neg openBelow, if_neg openBelow]
  by_cases openAside : range.last.column = greatestIndex
  · unfold greatestIndex at first last
    rw [if_pos openAside, if_pos openAside, fits?_of_lt (by omega), fits?_of_lt (by omega)]
    rfl
  · rw [if_neg openAside, if_neg openAside, Cell.written?_eq first, Cell.written?_eq last]
    rfl

theorem IsRead.ordered {range : Range} (isRead : range.IsRead) :
    range.first.column ≤ range.last.column ∧ range.first.row ≤ range.last.row ∧
      range.last.row ≤ greatestIndex := by
  rcases isRead.cases with ⟨a, b, aNamed, bNamed, rfl, _⟩ | ⟨a, b, aBelow, bBelow, rfl, _⟩ |
    ⟨a, b, aBelow, bBelow, rfl, _⟩
  · have aRow := aNamed.2
    have bRow := bNamed.2
    simp only [spanning]
    omega
  · simp only [columns, spanning]
    omega
  · simp only [rows, spanning]
    omega

theorem spanning_comm (a b : Cell) : spanning a b = spanning b a := by
  simp only [spanning, min_comm, max_comm]

theorem columns_comm (a b : Nat) : columns a b = columns b a := by
  simp only [columns, spanning, min_comm, max_comm]

theorem rows_comm (a b : Nat) : rows a b = rows b a := by
  simp only [rows, spanning, min_comm, max_comm]

theorem bind_comm_of_comm {α : Type} {join : α → α → Range}
    (comm : ∀ a b, join a b = join b a) (first second : Option α) :
    (do return join (← first) (← second)) = (do return join (← second) (← first)) := by
  cases first with
  | none => cases second <;> rfl
  | some a =>
      cases second with
      | none => rfl
      | some b => exact congrArg some (comm a b)

theorem readParts?_comm (left right : List Char) : readParts? left right = readParts? right left := by
  unfold readParts?
  rw [bind_comm_of_comm spanning_comm, bind_comm_of_comm columns_comm,
    bind_comm_of_comm rows_comm]

theorem read?_comm {left right : List Char} (leftSingle : ':' ∉ left) (rightSingle : ':' ∉ right) :
    read? (left ++ ':' :: right) = read? (right ++ ':' :: left) := by
  rw [read?_colon leftSingle, read?_colon rightSingle, readParts?_comm]

end Range

/-- Texts of references round-trip. A cell with a name is read back from it, and just the spellings
of letters and digits in the bounds are read. A range that has been read has its corners in order,
is written without an overflow, is read back from its spelling, and is the same if its parts are
exchanged. -/
theorem references_round_trip :
    (∀ cell : Cell, cell.column < greatestIndex → cell.row < greatestIndex →
      cell.written? = some cell.name ∧ Cell.ofName? cell.name = some cell ∧
        Cell.read? cell.name = some cell) ∧
    (∀ text cell, Cell.ofName? text = some cell ↔ cell.IsSpelledBy text) ∧
    ∀ text range, Range.read? text = some range →
      range.first.column ≤ range.last.column ∧ range.first.row ≤ range.last.row ∧
      range.written? = some range.name ∧ Range.read? range.name = some range ∧
      ∀ left right, ':' ∉ left → ':' ∉ right → text = left ++ ':' :: right →
        Range.read? (right ++ ':' :: left) = some range := by
  refine ⟨fun cell column row => ?_, fun text cell => Cell.ofName?_eq_some_iff,
    fun text range read => ?_⟩
  · exact ⟨Cell.written?_eq row, Cell.ofName?_name ⟨column, row⟩, Cell.read?_name ⟨column, row⟩⟩
  · have isRead : range.IsRead := ⟨text, read⟩
    obtain ⟨columns, rows, bounded⟩ := isRead.ordered
    refine ⟨columns, rows, Range.written?_eq rows bounded, Range.read?_name isRead, ?_⟩
    intro left right leftSingle rightSingle parts
    rw [← Range.read?_comm leftSingle rightSingle, ← parts]
    exact read

/-- Corners out of order, with blanks beside the colon, and the last cell that has a name. -/
theorem references_round_trip_of_corners :
    Cell.ofName? (Cell.name ⟨27, greatestIndex - 1⟩) = some ⟨27, greatestIndex - 1⟩ ∧
      Range.written? ⟨⟨0, 0⟩, ⟨1, 2⟩⟩ = some "A1:B3".toList ∧
      Range.read? "A1 :B3".toList = some ⟨⟨0, 0⟩, ⟨1, 2⟩⟩ := by
  have read : Range.read? "B3:A1 ".toList = some ⟨⟨0, 0⟩, ⟨1, 2⟩⟩ := by decide +kernel
  obtain ⟨cells, _, ranges⟩ := references_round_trip
  obtain ⟨_, _, written, _, exchanged⟩ := ranges _ _ read
  refine ⟨(cells ⟨27, greatestIndex - 1⟩ (by decide) (by decide)).2.1, ?_, ?_⟩
  · rw [written]
    decide +kernel
  · exact exchanged "B3".toList "A1 ".toList (by decide) (by decide) rfl

end Worksheet
