import Worksheet.Function.Registry
import Worksheet.Script.Name

/-!
# Checking formulas

A formula can be checked without a grid. The check reports everything it finds: a literal that is
never closed, parentheses that do not match, and each unknown function once. A formula that passes
may still fail on its data.
-/

set_option autoImplicit false

namespace Worksheet.Formula

/-- A formula without its equals sign and without the blanks around it. -/
def body (formula : List Char) : List Char :=
  let text := trim formula
  trim (match text with
    | '=' :: rest => rest
    | _ => text)

/-- Tells whether the parentheses of a text match; `depth` of them are open. -/
def isBalanced (depth : Nat) : List Char → Bool
  | [] => depth == 0
  | c :: rest =>
      if c = '(' then isBalanced (depth + 1) rest
      else if c = ')' then depth != 0 && isBalanced (depth - 1) rest
      else isBalanced depth rest

/-- The functions that a text calls and a registry lacks, each once, in capitals. -/
def unknownFunctions (registry : Registry) (text : List Char) : List (List Char) :=
  (((calledNames [] text).map capitals).filter fun name => !registry.contains name).eraseDups

def check (registry : Registry) (formula : List Char) : List FormulaError :=
  let text := body formula
  let outside := maskQuoted text
  if text.isEmpty then [.invalidExpression .emptyFormula]
  else
    (if endsQuoted false text then [.invalidExpression .unterminatedString] else []) ++
      (if isBalanced 0 outside then [] else [.unbalancedParentheses]) ++
      (unknownFunctions registry outside).map .unknownFunction

end Worksheet.Formula
