import Worksheet.Reference.Column

/-!
# Cells

A cell is named by the letters of its column and the number of its row, as in `B3`.
-/

set_option autoImplicit false

namespace Worksheet

structure Cell where
  column : Nat
  row : Nat
deriving DecidableEq, Repr

namespace Cell

def name (cell : Cell) : List Char :=
  columnLetters cell.column ++ rowDigits cell.row

def ofName? (text : List Char) : Option Cell := do
  let column ← column? (text.takeWhile Char.isAlpha)
  let row ← row? (text.dropWhile Char.isAlpha)
  return ⟨column, row⟩

def read? (text : List Char) : Option Cell :=
  ofName? (trim text)

def invalidMessage (text : List Char) : String :=
  "Invalid cell reference: " ++ String.ofList text

end Cell

end Worksheet
