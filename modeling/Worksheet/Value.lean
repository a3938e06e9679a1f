import Worksheet.Number.Numeral
import Worksheet.Number.Spelling
import Worksheet.Text.Quoted

/-!
# Values

A value is a number or a text: what a cell holds, what a function takes and returns, and what a
formula comes to. Each value has a form in which it is shown and a literal that stands for it
inside a formula. A negative number stands in parentheses, so that its sign cannot join the
operator in front of it; a zero loses its sign.
-/

set_option autoImplicit false

namespace Worksheet

inductive Value where
  | number (x : Float)
  | text (content : List Char)
deriving DecidableEq

def numberLiteral (x : Float) : List Char :=
  let x := x + 0.0
  if x < 0.0 then '(' :: spellNumber x ++ [')'] else spellNumber x

namespace Value

/-- A number itself, and the number that a text spells plainly. -/
def number? : Value → Option Float
  | number x => some x
  | text content => plainNumber? content

/-- Tells whether a value counts as true: it comes to a number other than zero. -/
def isTrue (value : Value) : Bool :=
  value.number?.any (· != 0.0)

def shown : Value → List Char
  | number x => showNumber x
  | text content => content

def literal : Value → List Char
  | number x => numberLiteral x
  | text content => quote content

/-- The number that a cell contributes; one that is not finite does not count. -/
def cellNumber? (value : Value) : Option Float :=
  value.number?.filter Float.isFinite

def isBlankText : Value → Bool
  | number _ => false
  | text content => (trim content).isEmpty

end Value

end Worksheet
