/-!
# Blank characters

The blank characters are the spaces, tabs and line ends of all scripts. `trim` drops them from
both ends of a text and leaves those inside alone.
-/

set_option autoImplicit false

namespace Worksheet

/-- Tells whether a character is white space: U+0009 to U+000D and every space or separator. -/
def isBlank (c : Char) : Bool :=
  (9 ≤ c.toNat && c.toNat ≤ 13) || c.toNat == 0x20 || c.toNat == 0x85 || c.toNat == 0xA0 ||
    c.toNat == 0x1680 || (0x2000 ≤ c.toNat && c.toNat ≤ 0x200A) || c.toNat == 0x2028 ||
    c.toNat == 0x2029 || c.toNat == 0x202F || c.toNat == 0x205F || c.toNat == 0x3000

def trimEnd (text : List Char) : List Char :=
  (text.reverse.dropWhile isBlank).reverse

def trim (text : List Char) : List Char :=
  trimEnd (text.dropWhile isBlank)

end Worksheet
