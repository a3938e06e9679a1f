import Worksheet.FormulaError
import Worksheet.Text.Order
import Worksheet.Value

/-!
# Expressions

An expression joins numbers and texts by signs, arithmetic, at most one comparison on each level,
and grouping. A text that spells a plain number counts as that number in arithmetic.

An expression may break off where its text does not follow the grammar. The break is part of the
tree: what stands before it is evaluated first, and its errors come first.
-/

set_option autoImplicit false

namespace Worksheet

inductive Relation where
  | equal
  | notEqual
  | less
  | atMost
  | greater
  | atLeast
deriving DecidableEq, Repr

/-- Compares two numbers, or two texts by their characters. A number and a text are never equal
and not in order either. -/
def Relation.holds : Relation → Value → Value → Bool
  | equal, .number a, .number b => a == b
  | notEqual, .number a, .number b => a != b
  | less, .number a, .number b => a < b
  | atMost, .number a, .number b => a ≤ b
  | greater, .number a, .number b => b < a
  | atLeast, .number a, .number b => b ≤ a
  | equal, .text a, .text b => a = b
  | notEqual, .text a, .text b => a ≠ b
  | less, .text a, .text b => precedes a b
  | atMost, .text a, .text b => !precedes b a
  | greater, .text a, .text b => precedes b a
  | atLeast, .text a, .text b => !precedes a b
  | relation, _, _ => relation = notEqual

inductive Operator where
  | add
  | subtract
  | multiply
  | divide
  | compare (relation : Relation)
deriving DecidableEq, Repr

inductive Expression where
  | number (x : Float)
  | text (content : List Char)
  | sign (negative : Bool) (operand : Expression)
  | group (inner : Expression)
  | binary (operator : Operator) (left right : Expression)
  /-- There is no expression here. -/
  | missing (error : FormulaError)
  /-- The expression is whole, and what follows it does not belong there. -/
  | spoiled (whole : Expression) (error : FormulaError)
deriving DecidableEq

def Value.toOperand : Value → Except FormulaError Float
  | .number x => .ok x
  | .text content =>
      match plainNumber? content with
      | some x => .ok x
      | none => .error (.invalidExpression .textInArithmetic)

namespace Operator

def compute : Operator → Float → Float → Except FormulaError Float
  | add, a, b => .ok (a + b)
  | subtract, a, b => .ok (a - b)
  | multiply, a, b => .ok (a * b)
  | divide, a, b => if b == 0.0 then .error .divisionByZero else .ok (a / b)
  | compare relation, a, b =>
      .ok (if relation.holds (.number a) (.number b) then 1.0 else 0.0)

/-- The result of an operator on two values. Arithmetic asks for the number on the right first. -/
def apply (operator : Operator) (left right : Value) : Except FormulaError Value :=
  match operator with
  | compare relation => .ok (.number (if relation.holds left right then 1.0 else 0.0))
  | _ => do
      let b ← right.toOperand
      let a ← left.toOperand
      return .number (← operator.compute a b)

end Operator

namespace Expression

/-- The value of an expression, or the error that arises first from left to right. -/
def eval : Expression → Except FormulaError Value
  | number x => .ok (.number x)
  | text content => .ok (.text content)
  | sign negative operand => do
      let x ← (← operand.eval).toOperand
      return .number (if negative then -x else x)
  | group inner => inner.eval
  | binary operator left right => do
      let a ← left.eval
      let b ← right.eval
      operator.apply a b
  | missing error => .error error
  | spoiled whole error => do
      let _ ← whole.eval
      .error error

end Expression

end Worksheet
