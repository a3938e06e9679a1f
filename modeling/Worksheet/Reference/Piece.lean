import Worksheet.Text.Blank
import Worksheet.Text.Word

/-!
# References in a text

A reference is a word of its own: a cell, `A1`, or a range in one of its three spellings, `A1:B2`
with blanks around the colon or none, `A:B`, or `2:4`. A text falls into pieces, each a reference
or a single character. References are found from the left, and at one place a range is preferred
to a cell. The pieces together are the text. Each shape of a reference gives what it takes from a
text and what it leaves.
-/

set_option autoImplicit false

namespace Worksheet

inductive Piece where
  | plain (c : Char)
  | range (token : List Char)
  | cell (token : List Char)
deriving DecidableEq, Repr

namespace Piece

def chars : Piece → List Char
  | plain c => [c]
  | range token => token
  | cell token => token

def run? (member : Char → Bool) (text : List Char) : Option (List Char × List Char) :=
  match text.takeWhile member with
  | [] => none
  | taken => some (taken, text.dropWhile member)

/-- Letters and digits behind them. -/
def cellShape? (text : List Char) : Option (List Char × List Char) := do
  let (letters, rest) ← run? Char.isAlpha text
  let (digits, rest) ← run? Char.isDigit rest
  return (letters ++ digits, rest)

def spacedColon? (text : List Char) : Option (List Char × List Char) :=
  match text.dropWhile isBlank with
  | ':' :: rest =>
      some (text.takeWhile isBlank ++ ':' :: rest.takeWhile isBlank, rest.dropWhile isBlank)
  | _ => none

def cornersShape? (text : List Char) : Option (List Char × List Char) := do
  let (first, rest) ← cellShape? text
  let (colon, rest) ← spacedColon? rest
  let (last, rest) ← cellShape? rest
  return (first ++ colon ++ last, rest)

/-- Two runs of one class with a colon directly between them. -/
def pairShape? (member : Char → Bool) (text : List Char) : Option (List Char × List Char) := do
  let (first, rest) ← run? member text
  match rest with
  | ':' :: rest => do
      let (last, rest) ← run? member rest
      return (first ++ ':' :: last, rest)
  | _ => none

/-- What a shape takes, if a word may end behind it. -/
def word? (shape : Option (List Char × List Char)) : Option (List Char) := do
  let (taken, rest) ← shape
  if wordEdge rest.head? then some taken else none

def reference? (text : List Char) : Option Piece :=
  (word? (cornersShape? text)).map range <|>
    (word? (pairShape? Char.isAlpha text)).map range <|>
    (word? (pairShape? Char.isDigit text)).map range <|>
    (word? (cellShape? text)).map cell

/-- The pieces of a text; `previous` is the character in front of it. -/
def ofCharsAfter (previous : Option Char) (text : List Char) : List Piece :=
  match text with
  | [] => []
  | c :: rest =>
      match if wordEdge previous then reference? (c :: rest) else none with
      | some piece =>
          piece :: ofCharsAfter piece.chars.getLast? (rest.drop (piece.chars.length - 1))
      | none => plain c :: ofCharsAfter (some c) rest
termination_by text.length
decreasing_by
  · simp only [List.length_drop, List.length_cons]
    omega
  · simp

def ofChars (text : List Char) : List Piece :=
  ofCharsAfter none text

/-- Tells whether pieces start with an opening parenthesis, which makes the word before it the
name of a call. -/
def opensCall : List Piece → Bool
  | plain '(' :: _ => true
  | _ => false

end Piece

end Worksheet
