import Worksheet.Number.Numeral

/-!
# Columns and rows

Columns and rows are counted from zero and written from one: a row as a number, a column in
letters, `A` to `Z`, then `AA`, `AB` and so on. The letters are a positional system with the
digits one to twenty-six and no zero, so every column has exactly one spelling in capitals.

No index exceeds `greatestIndex`. A written number that would is no reference.
-/

set_option autoImplicit false

namespace Worksheet

/-- The greatest index of a column or row. -/
def greatestIndex : Nat := UInt64.size - 1

def indexOfOrdinal? (ordinal : Nat) : Option Nat :=
  if 1 ≤ ordinal ∧ ordinal ≤ greatestIndex then some (ordinal - 1) else none

def capital (place : Nat) : Char :=
  Char.ofNat ('A'.toNat + place)

/-- The place of a letter in the alphabet, from one, in either case. -/
def letterOrdinal (letter : Char) : Nat :=
  letter.toUpper.toNat - 'A'.toNat + 1

def columnLetters (column : Nat) : List Char :=
  if column < 26 then [capital column]
  else columnLetters (column / 26 - 1) ++ [capital (column % 26)]
termination_by column
decreasing_by omega

def lettersOrdinal (letters : List Char) : Nat :=
  letters.foldl (fun total letter => 26 * total + letterOrdinal letter) 0

def column? (letters : List Char) : Option Nat :=
  if letters ≠ [] ∧ letters.all Char.isAlpha then indexOfOrdinal? (lettersOrdinal letters)
  else none

def rowDigits (row : Nat) : List Char :=
  digitChars (row + 1)

def row? (digits : List Char) : Option Nat :=
  (Numeral.natural? digits).bind indexOfOrdinal?

end Worksheet
