/-!
# Lines

A line ends at a line feed, or at a carriage return with a line feed behind it. The last line need
not end, and nothing behind the last line end is no line. A carriage return anywhere else belongs
to its line.
-/

set_option autoImplicit false

namespace Worksheet

def extendFirst (c : Char) : List (List Char) → List (List Char)
  | [] => [[c]]
  | first :: rest => (c :: first) :: rest

/-- The lines of a text, without their ends. -/
def lines : List Char → List (List Char)
  | [] => []
  | '\n' :: rest => [] :: lines rest
  | '\r' :: '\n' :: rest => [] :: lines rest
  | c :: rest => extendFirst c (lines rest)

end Worksheet
