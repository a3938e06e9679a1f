import Worksheet.Function.Arity

/-!
# Errors of formulas

An error is one of six kinds, and an expression can be invalid for a number of reasons. Each has
one wording, which never quotes the contents of a cell.
-/

set_option autoImplicit false

namespace Worksheet

inductive Fault where
  | emptyFormula
  | emptyExpression
  | unterminatedString
  | unexpectedCharacter
  | malformedNumber
  | unexpectedToken
  | unexpectedOperator
  | unexpectedEnd
  | textInArithmetic
  | notFinite
  | numberExpected
  | argumentCount (name : List Char) (arity : Arity) (count : Nat)
  | emptySet (name : List Char)
  | numericArgument (name : List Char)
  | nonFiniteResult (name : List Char)
deriving DecidableEq, Repr

def Fault.message : Fault → String
  | emptyFormula => "empty formula"
  | emptyExpression => "empty expression"
  | unterminatedString => "unterminated string literal"
  | unexpectedCharacter => "unexpected character in expression"
  | malformedNumber => "malformed number"
  | unexpectedToken => "unexpected token"
  | unexpectedOperator => "unexpected operator"
  | unexpectedEnd => "unexpected end of expression"
  | textInArithmetic => "text used in arithmetic"
  | notFinite => "result is not a finite number"
  | numberExpected => "expected a number"
  | argumentCount name arity count =>
      String.ofList name ++ " expects " ++ arity.inWords ++ " argument(s), got " ++ toString count
  | emptySet name => String.ofList name ++ " of an empty set is undefined"
  | numericArgument name => String.ofList name ++ " expects a numeric argument"
  | nonFiniteResult name => String.ofList name ++ " produced a non-finite number"

inductive FormulaError where
  | invalidExpression (fault : Fault)
  | unknownFunction (name : List Char)
  | unbalancedParentheses
  | divisionByZero
  | tooComplex (limit : Nat)
  | malformedReference (token : List Char)
deriving DecidableEq, Repr

namespace FormulaError

def kind : FormulaError → String
  | invalidExpression _ => "InvalidExpression"
  | unknownFunction _ => "UnknownFunction"
  | unbalancedParentheses => "UnbalancedParentheses"
  | divisionByZero => "DivisionByZero"
  | tooComplex _ => "TooComplex"
  | malformedReference _ => "MalformedReference"

def message : FormulaError → String
  | invalidExpression fault => "Invalid expression: " ++ fault.message
  | unknownFunction name => "Unknown function: " ++ String.ofList name
  | unbalancedParentheses => "Unbalanced parentheses"
  | divisionByZero => "Division by zero"
  | tooComplex limit => "Formula too complex (nesting deeper than " ++ toString limit ++ ")"
  | malformedReference token => "Malformed reference: " ++ String.ofList token

/-- The text that stands where the value of the formula would. -/
def shown (error : FormulaError) : String :=
  "#ERROR: " ++ error.message

end FormulaError

end Worksheet
