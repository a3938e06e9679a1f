import Worksheet.Formula.Batch
import Worksheet.Report.Json

/-!
# Reports of the command

The command answers each formula on a line, or all formulas in one document. A formula that is
only checked is answered by `OK` or by everything that is wrong with it.
-/

set_option autoImplicit false

namespace Worksheet.Command

def asLine (content : List Char) : List Char :=
  content ++ ['\n']

def valueLine : Except FormulaError Value → List Char
  | .ok value => asLine value.shown
  | .error error => asLine error.shown.toList

def checkLine (errors : List FormulaError) : List Char :=
  if errors.isEmpty then asLine "OK".toList
  else asLine (String.intercalate "; " (errors.map FormulaError.message)).toList

def valueJson : Value → Json
  | .number x => .number x
  | .text content => .text content

def outcomeJson : Except FormulaError Value → Json
  | .ok value => .object [("status", .text "success".toList), ("value", valueJson value)]
  | .error error =>
      .object
        [("status", .text "error".toList), ("kind", .text error.kind.toList),
          ("message", .text error.shown.toList)]

def checkJson (errors : List FormulaError) : Json :=
  .object
    [("valid", .boolean errors.isEmpty),
      ("errors", .list (errors.map fun error => .text error.message.toList))]

def answersJson (formulas : List String) (results : List Json) : Json :=
  .list ((formulas.zip results).map fun (formula, result) =>
    .object [("formula", .text formula.toList), ("result", result)])

def padded (width : Nat) (content : List Char) : List Char :=
  content ++ List.replicate (width - content.length) ' '

def functionLine (function : Function) : List Char :=
  asLine (padded 8 function.name ++ ' ' :: function.description.toList)

def functionsJson (functions : List Function) : Json :=
  .list (functions.map fun function =>
    .object
      [("description", .text function.description.toList), ("name", .text function.name)])

end Worksheet.Command
