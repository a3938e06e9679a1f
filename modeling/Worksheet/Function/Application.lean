import Worksheet.Expression.Evaluation
import Worksheet.Function.Registry

/-!
# Calling a function

A call names a function and gives the texts of its arguments. The number of arguments is checked
first. A missing argument, one with an empty text or the literal of an empty range, is skipped by
an aggregate and counts as zero elsewhere, so the other arguments keep their places.
-/

set_option autoImplicit false

namespace Worksheet

def emptyRangeLiteral : List Char := "()".toList

def isMissing (argument : List Char) : Bool :=
  argument = [] || argument = emptyRangeLiteral

def argumentValue (argument : List Char) : Except FormulaError Value :=
  if isMissing argument then .ok (.number 0.0) else Expression.valueOf argument

def Body.apply (body : Body) (settings : Settings) (arguments : List (List Char)) :
    Except FormulaError Value :=
  match body with
  | aggregate run => do
      let values ← (arguments.filter fun argument => !isMissing argument).mapM Expression.valueOf
      run (values.filterMap Value.number?) settings
  | scalar run => do run (← arguments.mapM argumentValue) settings
  | lazy run => run arguments argumentValue settings

/-- The value of a call. -/
def Registry.call (registry : Registry) (settings : Settings) (name : List Char)
    (arguments : List (List Char)) : Except FormulaError Value :=
  let canonical := capitals name
  match registry.get? canonical with
  | none => .error (.unknownFunction canonical)
  | some function =>
      if function.arity.admits arguments.length then do
        Expression.requireFinite (.invalidExpression (.nonFiniteResult canonical))
          (← function.body.apply settings arguments)
      else
        .error (.invalidExpression (.argumentCount canonical function.arity arguments.length))

end Worksheet
