import Mathlib
import Worksheet.Expression.Token
import Worksheet.Function.Library
import Worksheet.Grid

/-!
# Formulas as trees

A numeric formula is a tree of literals, cells, signs, groups, operators and calls. Its value is
found from the bottom up, on numbers alone: there is no text in between. Spelled out, a tree is
the text of a formula; parentheses are put around an operand that binds too loosely for its place.
-/

set_option autoImplicit false

namespace Worksheet

structure UnsignedLiteral where
  digits : List Char
  decimal : Decimal
  numeric : digits.all Token.isNumberChar = true
  read : Numeral.magnitude? digits = some decimal

structure CellWord where
  letters : List Char
  digits : List Char
  letters_ne_nil : letters ≠ []
  digits_ne_nil : digits ≠ []
  allLetters : letters.all Char.isAlpha = true
  allDigits : digits.all Char.isDigit = true

def CellWord.token (word : CellWord) : List Char :=
  word.letters ++ word.digits

inductive Arithmetic where
  | add
  | subtract
  | multiply
  | divide
deriving DecidableEq, Repr

namespace Arithmetic

def operator : Arithmetic → Operator
  | add => .add
  | subtract => .subtract
  | multiply => .multiply
  | divide => .divide

def symbol : Arithmetic → Char
  | add => '+'
  | subtract => '-'
  | multiply => '*'
  | divide => '/'

def strength : Arithmetic → Nat
  | add | subtract => 2
  | multiply | divide => 3

theorem strength_le (operator : Arithmetic) : operator.strength ≤ 3 := by
  cases operator <;> decide

end Arithmetic

def signSymbol (negative : Bool) : Char :=
  if negative then '-' else '+'

inductive NumericFunction where
  | sum
  | average
  | min
  | max
  | count
  | median
  | product
  | round
  | abs
  | power
  | sqrt
deriving DecidableEq, Repr

namespace NumericFunction

def name : NumericFunction → List Char
  | sum => "SUM".toList
  | average => "AVERAGE".toList
  | min => "MIN".toList
  | max => "MAX".toList
  | count => "COUNT".toList
  | median => "MEDIAN".toList
  | product => "PRODUCT".toList
  | round => "ROUND".toList
  | abs => "ABS".toList
  | power => "POWER".toList
  | sqrt => "SQRT".toList

def arity : NumericFunction → Arity
  | round => .between 1 2
  | abs | sqrt => .exactly 1
  | power => .exactly 2
  | _ => .any

def extremum (function : NumericFunction) (pick : Float → Float → Float) (settings : Settings) :
    List Float → Except FormulaError Float
  | first :: rest => .ok (rest.foldl pick first)
  | [] =>
      match settings.emptyExtremum with
      | .zero => .ok 0.0
      | .error => .error (.invalidExpression (.emptySet function.name))

def compute (settings : Settings) (function : NumericFunction) (numbers : List Float) :
    Except FormulaError Float :=
  match function, numbers with
  | sum, _ => .ok (Aggregate.sum numbers)
  | average, _ => .ok (Aggregate.average numbers)
  | min, _ => function.extremum Aggregate.smaller settings numbers
  | max, _ => function.extremum Aggregate.larger settings numbers
  | count, _ => .ok (Float.ofNat numbers.length)
  | median, _ => .ok (Aggregate.median numbers)
  | product, _ => .ok (Aggregate.productOrEmpty numbers settings)
  | round, [x] => .ok (roundPlaces x 0)
  | round, [x, places] => .ok (roundPlaces x (truncate places))
  | abs, [x] => .ok x.abs
  | power, [base, exponent] => .ok (base.pow exponent)
  | sqrt, [x] => .ok (if x < 0.0 then 0.0 else x.sqrt)
  | _, _ => .error (.invalidExpression (.argumentCount function.name function.arity numbers.length))

end NumericFunction

inductive Tree where
  | number (literal : UnsignedLiteral)
  | cell (word : CellWord)
  | sign (negative : Bool) (operand : Tree)
  | group (inner : Tree)
  | binary (operator : Arithmetic) (left right : Tree)
  | call (function : NumericFunction) (arguments : List Tree)

namespace Tree

@[elab_as_elim]
theorem induction {motive : Tree → Prop} (number : ∀ literal, motive (number literal))
    (cell : ∀ word, motive (cell word))
    (sign : ∀ negative operand, motive operand → motive (sign negative operand))
    (group : ∀ inner, motive inner → motive (group inner))
    (binary : ∀ operator left right, motive left → motive right →
      motive (binary operator left right))
    (call : ∀ function arguments, (∀ argument ∈ arguments, motive argument) →
      motive (call function arguments)) (tree : Tree) : motive tree :=
  @Tree.rec motive (fun arguments => ∀ argument ∈ arguments, motive argument)
    number cell sign group binary call (by simp)
    (fun _ _ head tail => List.forall_mem_cons.mpr ⟨head, tail⟩) tree

def finiteOr (error : FormulaError) (x : Float) : Except FormulaError Float :=
  if x.isFinite then .ok x else .error error

/-- The number that a cell stands for: its own, and zero if it has none or is absent. A zero has no
sign. -/
def cellValue (grid : Grid) (word : CellWord) : Float :=
  (((Cell.read? word.token).bind grid.get?).bind Value.cellNumber?).getD 0.0 + 0.0

mutual

/-- The value of a tree from the bottom up. Arguments and results of calls have to be finite, and
the result of a call loses the sign of a zero. -/
def value (settings : Settings) (grid : Grid) : Tree → Except FormulaError Float
  | number literal => .ok (literal.decimal.toFloat false)
  | cell word => .ok (cellValue grid word)
  | sign negative operand => do
      let x ← operand.value settings grid
      return if negative then -x else x
  | group inner => inner.value settings grid
  | binary operator left right => do
      let a ← left.value settings grid
      let b ← right.value settings grid
      operator.operator.compute a b
  | call function arguments => do
      let numbers ← values settings grid arguments
      let x ← function.compute settings numbers
      return (← finiteOr (.invalidExpression (.nonFiniteResult function.name)) x) + 0.0

def values (settings : Settings) (grid : Grid) : List Tree → Except FormulaError (List Float)
  | [] => .ok []
  | argument :: others => do
      let x ← finiteOr (.invalidExpression .notFinite) (← argument.value settings grid)
      let numbers ← values settings grid others
      return x :: numbers

end

def result (settings : Settings) (grid : Grid) (tree : Tree) : Except FormulaError Float := do
  finiteOr (.invalidExpression .notFinite) (← tree.value settings grid)

mutual

def spelled (cellText : CellWord → List Char) : Tree → List Char
  | number literal => literal.digits
  | cell word => cellText word
  | sign negative operand => signSymbol negative :: operand.spelled cellText
  | group inner => '(' :: (inner.spelled cellText ++ [')'])
  | binary operator left right =>
      left.spelled cellText ++ operator.symbol :: right.spelled cellText
  | call function arguments => function.name ++ '(' :: (spelledAll cellText arguments ++ [')'])

def spelledAll (cellText : CellWord → List Char) : List Tree → List Char
  | [] => []
  | [argument] => argument.spelled cellText
  | argument :: others => argument.spelled cellText ++ ',' :: spelledAll cellText others

end

def strength : Tree → Nat
  | sign _ _ => 4
  | binary operator _ _ => operator.strength
  | _ => 5

def enclosed (required : Nat) (tree : Tree) : Tree :=
  if required ≤ tree.strength then tree else group tree

mutual

/-- Puts parentheses where the text of a tree needs them: around a sum in a product, around a sum
or a product behind a sign, and around the right operand of an operator as strong as its own. -/
def parenthesized : Tree → Tree
  | number literal => number literal
  | cell word => cell word
  | sign negative operand => sign negative (operand.parenthesized.enclosed 4)
  | group inner => group inner.parenthesized
  | binary operator left right =>
      binary operator (left.parenthesized.enclosed operator.strength)
        (right.parenthesized.enclosed (operator.strength + 1))
  | call function arguments => call function (parenthesizedAll arguments)

def parenthesizedAll : List Tree → List Tree
  | [] => []
  | argument :: others => argument.parenthesized :: parenthesizedAll others

end

mutual

def subtrees : Tree → List Tree
  | number literal => [number literal]
  | cell word => [cell word]
  | sign negative operand => sign negative operand :: operand.subtrees
  | group inner => group inner :: inner.subtrees
  | binary operator left right => binary operator left right :: (left.subtrees ++ right.subtrees)
  | call function arguments => call function arguments :: subtreesAll arguments

def subtreesAll : List Tree → List Tree
  | [] => []
  | argument :: others => argument.subtrees ++ subtreesAll others

end

def arguments : Tree → List Tree
  | call _ arguments => arguments
  | _ => []

/-- The trees that are each read in one go: the whole and every argument of a call in it. -/
def segments (tree : Tree) : List Tree :=
  tree :: tree.subtrees.flatMap arguments

/-- How many groups and signs stand one inside the other, outside the arguments of calls. -/
def nesting : Tree → Nat
  | sign _ operand => operand.nesting + 1
  | group inner => inner.nesting + 1
  | binary _ left right => max left.nesting right.nesting
  | _ => 0

mutual

def callDepth : Tree → Nat
  | number _ => 0
  | cell _ => 0
  | sign _ operand => operand.callDepth
  | group inner => inner.callDepth
  | binary _ left right => max left.callDepth right.callDepth
  | call _ arguments => callDepthAll arguments + 1

def callDepthAll : List Tree → Nat
  | [] => 0
  | argument :: others => max argument.callDepth (callDepthAll others)

end

end Tree

/-- Tells whether a value reads as a number: it is one, or a text that spells one or is blank. -/
def Value.readsAsNumber : Value → Bool
  | .number _ => true
  | .text content => (Value.text content).cellNumber?.isSome || (Value.text content).isBlankText

def Grid.NumericAt (grid : Grid) (word : CellWord) : Prop :=
  ∀ value ∈ (Cell.read? word.token).bind grid.get?, value.readsAsNumber = true

end Worksheet
