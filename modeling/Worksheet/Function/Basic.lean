import Worksheet.FormulaError
import Worksheet.Settings
import Worksheet.Value

/-!
# Functions

A function has a name, an arity, a description, and a body. The body fixes how the arguments
arrive: an aggregate takes the numbers among them, a scalar takes their values one by one, and a
lazy function takes their texts and evaluates those that it needs.
-/

set_option autoImplicit false

namespace Worksheet

/-- The capital form of a text; letters beyond `z` stay as they are. -/
def capitals (text : List Char) : List Char :=
  text.map Char.toUpper

/-- How an argument text is evaluated. -/
abbrev ArgumentValue := List Char → Except FormulaError Value

inductive Body where
  | aggregate (run : List Float → Settings → Except FormulaError Value)
  | scalar (run : List Value → Settings → Except FormulaError Value)
  | lazy (run : List (List Char) → ArgumentValue → Settings → Except FormulaError Value)

def Body.manner : Body → String
  | aggregate _ => "aggregate"
  | scalar _ => "scalar"
  | lazy _ => "lazy"

structure Function where
  name : List Char
  arity : Arity
  body : Body
  description : String

namespace Function

def key (function : Function) : List Char :=
  capitals function.name

end Function

end Worksheet
