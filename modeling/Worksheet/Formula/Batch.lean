import Worksheet.Formula.Calculator

/-!
# Batches

Many formulas are evaluated against one grid, or checked. Each stands for itself: a formula that
fails does not stop the others, and the answers come in the order of the formulas.
-/

set_option autoImplicit false

namespace Worksheet.Calculator

def evaluateAll (calculator : Calculator) (grid : Grid) (formulas : List (List Char)) :
    List (Except FormulaError Value) :=
  formulas.map fun formula => calculator.evaluate formula grid

def checkAll (calculator : Calculator) (formulas : List (List Char)) : List (List FormulaError) :=
  formulas.map calculator.check

end Worksheet.Calculator
