import Worksheet.Grid
import Worksheet.Reference.Column

/-!
# Tables

A table is a grid with headers for its columns. Headers may be missing or empty, and then a column
goes by its letters.
-/

set_option autoImplicit false

namespace Worksheet

structure Table where
  headers : List (List Char) := []
  grid : Grid := {}
deriving DecidableEq

namespace Table

def rowCount (table : Table) : Nat :=
  table.grid.rowCount

def columnCount (table : Table) : Nat :=
  max table.grid.columnCount table.headers.length

/-- The header of a column, or else the letters of the column. -/
def header (table : Table) (column : Nat) : List Char :=
  match table.headers[column]? with
  | some (c :: rest) => c :: rest
  | _ => columnLetters column

end Table

end Worksheet
