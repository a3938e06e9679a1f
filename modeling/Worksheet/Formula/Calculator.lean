import Worksheet.Formula.Check
import Worksheet.Reference.Resolution
import Worksheet.Script.Reduction

/-!
# Calculators

A calculator evaluates formulas with its settings and its functions. A formula is checked, its
references are resolved against a grid, its calls are reduced from the inside out, and what is
left is one text literal or arithmetic on numbers.
-/

set_option autoImplicit false

namespace Worksheet

structure Calculator where
  settings : Settings := {}
  registry : Registry := .standard

namespace Calculator

/-- Replaces the calls of a text by the literals of their values. -/
def reduce (calculator : Calculator) (text : List Char) : Except FormulaError (List Char) :=
  Script.reduceText (calculator.registry.call calculator.settings)
    calculator.settings.nestingLimit text

def result (text : List Char) : Except FormulaError Value :=
  match unquote? (trim text) with
  | some content => .ok (.text content)
  | none => do return .number ((← Expression.arithmeticOf (trim text)) + 0.0)

def check (calculator : Calculator) (formula : List Char) : List FormulaError :=
  Formula.check calculator.registry formula

/-- The value of a formula on a grid. -/
def evaluate (calculator : Calculator) (formula : List Char) (grid : Grid) :
    Except FormulaError Value :=
  match calculator.check formula with
  | error :: _ => .error error
  | [] => do
      let resolved ← resolve grid calculator.settings (Formula.body formula)
      let reduced ← calculator.reduce resolved
      result reduced

end Calculator

end Worksheet
