import Worksheet.Function.Aggregate
import Worksheet.Number.Places

/-!
# The library of functions

The functions that every registry starts with. `IF` evaluates its condition and one branch only.
`CONCAT` takes its arguments as text: a literal contributes what it spells, a number its shown
form, and anything else stands for itself.
-/

set_option autoImplicit false

namespace Worksheet.Library

def numberAt (name : String) (index : Nat) (arguments : List Value) :
    Except FormulaError Float :=
  match arguments[index]?.bind Value.number? with
  | some x => .ok x
  | none => .error (.invalidExpression (.numericArgument name.toList))

/-- Rounds the first argument to the places in the second, or to a whole number. -/
def round (arguments : List Value) : Except FormulaError Value := do
  let x ← numberAt "ROUND" 0 arguments
  let places ← if 1 < arguments.length then numberAt "ROUND" 1 arguments else pure 0.0
  return .number (roundPlaces x (truncate places))

def absolute (arguments : List Value) : Except FormulaError Value := do
  return .number (← numberAt "ABS" 0 arguments).abs

def power (arguments : List Value) : Except FormulaError Value := do
  let base ← numberAt "POWER" 0 arguments
  let exponent ← numberAt "POWER" 1 arguments
  return .number (base.pow exponent)

/-- The square root, and zero for a negative number. -/
def squareRoot (arguments : List Value) : Except FormulaError Value := do
  let x ← numberAt "SQRT" 0 arguments
  return .number (if x < 0.0 then 0.0 else x.sqrt)

/-- The value of the second argument if the first is true, and of the third if not. An argument
that is left out is missing. -/
def choose (arguments : List (List Char)) (value : ArgumentValue) : Except FormulaError Value := do
  let condition ← value (arguments.getD 0 [])
  if condition.isTrue then value (arguments.getD 1 []) else value (arguments.getD 2 [])

/-- Takes one pair of parentheses off, if the whole text stands in one. -/
def withoutParentheses (text : List Char) : List Char :=
  match text with
  | '(' :: rest => if rest.getLast? = some ')' then rest.dropLast else text
  | _ => text

def joinedPart (argument : List Char) : List Char :=
  let argument := trim argument
  match unquote? argument with
  | some content => content
  | none =>
      let bare := withoutParentheses argument
      if (trim bare).isEmpty then []
      else
        match plainNumber? bare with
        | some x => showNumber x
        | none => argument

def concat (arguments : List (List Char)) : Value :=
  .text (arguments.flatMap joinedPart)

def functions : List Function :=
  [⟨"SUM".toList, .any, .aggregate fun numbers _ => .ok (.number (Aggregate.sum numbers)),
      "Sum of numeric values"⟩,
   ⟨"AVERAGE".toList, .any, .aggregate fun numbers _ => .ok (.number (Aggregate.average numbers)),
      "Mean of numeric values (0 when there are none)"⟩,
   ⟨"MIN".toList, .any, .aggregate (Aggregate.extremum "MIN" Aggregate.smaller),
      "Smallest numeric value"⟩,
   ⟨"MAX".toList, .any, .aggregate (Aggregate.extremum "MAX" Aggregate.larger),
      "Largest numeric value"⟩,
   ⟨"COUNT".toList, .any,
      .aggregate fun numbers _ => .ok (.number (Float.ofNat numbers.length)),
      "Count of numeric values"⟩,
   ⟨"MEDIAN".toList, .any, .aggregate fun numbers _ => .ok (.number (Aggregate.median numbers)),
      "Middle numeric value (mean of the two middles for even counts)"⟩,
   ⟨"PRODUCT".toList, .any,
      .aggregate fun numbers settings => .ok (.number (Aggregate.productOrEmpty numbers settings)),
      "Product of numeric values"⟩,
   ⟨"ROUND".toList, .between 1 2, .scalar fun arguments _ => round arguments,
      "Round half away from zero to N decimal places"⟩,
   ⟨"ABS".toList, .exactly 1, .scalar fun arguments _ => absolute arguments, "Absolute value"⟩,
   ⟨"POWER".toList, .exactly 2, .scalar fun arguments _ => power arguments,
      "Base raised to an exponent"⟩,
   ⟨"SQRT".toList, .exactly 1, .scalar fun arguments _ => squareRoot arguments,
      "Square root (0 for negative input)"⟩,
   ⟨"IF".toList, .between 2 3, .lazy fun arguments value _ => choose arguments value,
      "Choose a value by condition; nonzero is true"⟩,
   ⟨"CONCAT".toList, .any, .lazy fun arguments _ _ => .ok (concat arguments),
      "Join arguments as text"⟩]

end Worksheet.Library
