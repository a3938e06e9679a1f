import Worksheet.Expression.Parser

/-!
# Values of expression texts

`Expression.valueOf` is the value of a text that is an expression on its own: an argument of a
function. `Expression.arithmeticOf` is for what is left of a formula once its references and calls
are gone, where only arithmetic on numbers may stand.
-/

set_option autoImplicit false

namespace Worksheet.Expression

def requireFinite (error : FormulaError) (value : Value) : Except FormulaError Value :=
  match value with
  | .number x => if x.isFinite then .ok value else .error error
  | .text _ => .ok value

def valueOf (text : List Char) : Except FormulaError Value :=
  match Token.ofText text with
  | .error fault => .error (.invalidExpression fault)
  | .ok [] => .error (.invalidExpression .emptyExpression)
  | .ok tokens => do
      requireFinite (.invalidExpression .notFinite) (← (ofTokens tokens).eval)

def isArithmeticChar (c : Char) : Bool :=
  c.isDigit || isBlank c || ".+-*/()".toList.contains c

def arithmeticOf (text : List Char) : Except FormulaError Float :=
  if text.all isArithmeticChar then do
    match ← valueOf text with
    | .number x => return x
    | .text _ => .error (.invalidExpression .numberExpected)
  else .error (.invalidExpression .unexpectedCharacter)

end Worksheet.Expression
