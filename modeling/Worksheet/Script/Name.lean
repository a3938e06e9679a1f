import Worksheet.Text.Word

/-!
# Names of calls

A call is a name with an opening parenthesis directly behind it. The name is the longest run of
letters, digits and underscores in front of the parenthesis, all within ASCII, and it does not
begin with a digit. A parenthesis without such a name only groups.

What stands in front of a parenthesis is handed over backwards, its last character first.
-/

set_option autoImplicit false

namespace Worksheet

def isNameChar (c : Char) : Bool :=
  c.isAlphanum || c == '_'

/-- The name at the end of a text that is given backwards. -/
def nameBehind? (behind : List Char) : Option (List Char) :=
  match (behind.takeWhile isNameChar).reverse with
  | [] => none
  | first :: rest => if first.isDigit then none else some (first :: rest)

/-- The name at the end of a text that is given backwards, if it is a word of its own. -/
def wholeNameBehind? (behind : List Char) : Option (List Char) :=
  (nameBehind? behind).filter fun name => wordEdge (behind.drop name.length).head?

/-- The names directly in front of the opening parentheses of a text, in order. -/
def calledNames (behind : List Char) : List Char → List (List Char)
  | [] => []
  | c :: rest =>
      (if c = '(' then (wholeNameBehind? behind).toList else []) ++ calledNames (c :: behind) rest

end Worksheet
