/-!
# The order of texts

Texts are in the order of a dictionary, by the code points of their characters: the first
character that differs decides, and a text comes before its continuations.
-/

set_option autoImplicit false

namespace Worksheet

def precedes : List Char → List Char → Bool
  | _, [] => false
  | [], _ :: _ => true
  | a :: first, b :: second => a.toNat < b.toNat || (a = b && precedes first second)

end Worksheet
