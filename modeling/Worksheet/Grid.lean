import Worksheet.Reference.Cell
import Worksheet.Value

/-!
# Grids

A grid is a list of rows of values. The rows may differ in length, and a cell beyond the end of
its row is absent.
-/

set_option autoImplicit false

namespace Worksheet

structure Grid where
  rows : List (List Value) := []
deriving DecidableEq

namespace Grid

def get? (grid : Grid) (cell : Cell) : Option Value :=
  grid.rows[cell.row]?.bind fun row => row[cell.column]?

def rowCount (grid : Grid) : Nat :=
  grid.rows.length

def columnCount (grid : Grid) : Nat :=
  (grid.rows.map List.length).foldl max 0

/-- The cells that are present, row by row and from left to right, each with its value. -/
def entries (grid : Grid) : List (Cell × Value) :=
  grid.rows.zipIdx.flatMap fun (row, rowIndex) =>
    row.zipIdx.map fun (value, columnIndex) => (⟨columnIndex, rowIndex⟩, value)

end Grid

end Worksheet
