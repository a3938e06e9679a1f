import Worksheet.Grid

/-!
# Ranges

A range is a rectangle of cells. It is written with two opposite corners, `A1:C10`, or as whole
columns, `A:C`, or as whole rows, `2:4`. Whole columns reach down to the greatest row index and
whole rows out to the greatest column index, so a range that ends there is open on that side.
Only cells that are present count, so every range covers finitely many.
-/

set_option autoImplicit false

namespace Worksheet

/-- A rectangle given by its first and its last cell. -/
structure Range where
  first : Cell
  last : Cell
deriving DecidableEq, Repr

namespace Range

def spanning (a b : Cell) : Range where
  first := ⟨min a.column b.column, min a.row b.row⟩
  last := ⟨max a.column b.column, max a.row b.row⟩

/-- All columns between the two, with every row. -/
def columns (a b : Nat) : Range :=
  spanning ⟨a, 0⟩ ⟨b, greatestIndex⟩

def rows (a b : Nat) : Range :=
  spanning ⟨0, a⟩ ⟨greatestIndex, b⟩

def splitColon? (text : List Char) : Option (List Char × List Char) :=
  match text.dropWhile (· != ':') with
  | _ :: right => some (text.takeWhile (· != ':'), right)
  | [] => none

def read? (text : List Char) : Option Range := do
  let (left, right) ← splitColon? (trim text)
  let left := trim left
  let right := trim right
  (do return spanning (← Cell.read? left) (← Cell.read? right)) <|>
    (do return columns (← column? left) (← column? right)) <|>
    (do return rows (← row? left) (← row? right))

def isBounded (range : Range) : Bool :=
  range.last.row != greatestIndex && range.last.column != greatestIndex

def name (range : Range) : List Char :=
  if range.last.row = greatestIndex then
    columnLetters range.first.column ++ ':' :: columnLetters range.last.column
  else if range.last.column = greatestIndex then
    rowDigits range.first.row ++ ':' :: rowDigits range.last.row
  else range.first.name ++ ':' :: range.last.name

def covers (range : Range) (cell : Cell) : Bool :=
  range.first.row ≤ cell.row && cell.row ≤ range.last.row &&
    range.first.column ≤ cell.column && cell.column ≤ range.last.column

/-- The present cells of a range with their values, row by row and from left to right. -/
def entries (range : Range) (grid : Grid) : List (Cell × Value) :=
  grid.entries.filter fun (cell, _) => range.covers cell

def cells (range : Range) (grid : Grid) : List Cell :=
  (range.entries grid).map Prod.fst

def values (range : Range) (grid : Grid) : List Value :=
  (range.entries grid).map Prod.snd

def numbers (range : Range) (grid : Grid) : List Float :=
  (range.values grid).filterMap Value.cellNumber?

end Range

end Worksheet
