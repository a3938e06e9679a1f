import Worksheet.Text.Blank
import Worksheet.Text.Lines

/-!
# Lists of arguments

Arguments are separated by commas. A comma inside a quoted literal or inside parentheses
separates nothing. Blanks around an argument do not count, an argument may be empty, and a text
of blanks only is no argument at all.
-/

set_option autoImplicit false

namespace Worksheet.Arguments

/-- The parts of a text between its separating commas. `depth` counts the parentheses that are
open; one that closes nothing does not count. -/
def parts (depth : Nat) (inside : Bool) : List Char → List (List Char)
  | [] => [[]]
  | c :: rest =>
      if c = '"' then extendFirst c (parts depth (!inside) rest)
      else if inside then extendFirst c (parts depth inside rest)
      else if c = '(' then extendFirst c (parts (depth + 1) inside rest)
      else if c = ')' then extendFirst c (parts (depth - 1) inside rest)
      else if c = ',' ∧ depth = 0 then [] :: parts depth inside rest
      else extendFirst c (parts depth inside rest)

/-- Splits the text between the parentheses of a call into its arguments. -/
def split (text : List Char) : List (List Char) :=
  if (trim text).isEmpty then [] else (parts 0 false text).map trim

end Worksheet.Arguments
