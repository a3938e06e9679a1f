import Worksheet.Function.Application
import Worksheet.Reference.Piece
import Worksheet.Reference.Range
import Worksheet.Script.Name

/-!
# Resolving references

Each reference outside literals becomes a literal of what it refers to, unless it is the name of
a call. How it reads depends on the innermost call around it, looking through grouping
parentheses: in the arguments of `CONCAT` a cell is read as text and a range is left alone;
elsewhere a cell is read as a number where it can be and a range is the list of its numbers.

A reference to nothing is empty, or zero, or an error if the settings are strict.
-/

set_option autoImplicit false

namespace Worksheet

/-- The function whose arguments are read as text. -/
def textFunction : List Char := "CONCAT".toList

/-- What the text read so far says about the next place: whether it lies inside a literal, what
stands behind it, and for each open parenthesis, the innermost first, whether text is read there. -/
structure Place where
  inside : Bool := false
  behind : List Char := []
  textLevels : List Bool := []
deriving DecidableEq, Repr

namespace Place

def readsText (place : Place) : Bool :=
  place.textLevels.headD false

def opensText (place : Place) : Bool :=
  match nameBehind? place.behind with
  | some name => capitals name = textFunction
  | none => place.readsText

def step (place : Place) (c : Char) : Place where
  inside := if c = '"' then !place.inside else place.inside
  behind := c :: place.behind
  textLevels :=
    if place.inside then place.textLevels
    else if c = '(' then place.opensText :: place.textLevels
    else if c = ')' then place.textLevels.tail
    else place.textLevels

end Place

def unresolved (settings : Settings) (token fallback : List Char) :
    Except FormulaError (List Char) :=
  if settings.strictReferences then .error (.malformedReference (capitals token))
  else .ok fallback

/-- Joins the literals of numbers, and keeps the place of none. -/
def numbersLiteral (numbers : List Float) : List Char :=
  match numbers with
  | [] => emptyRangeLiteral
  | _ => [','].intercalate (numbers.map numberLiteral)

def rangeLiteral (grid : Grid) (settings : Settings) (readsText : Bool) (token : List Char) :
    Except FormulaError (List Char) :=
  if readsText then .ok token
  else
    match Range.read? token with
    | none => unresolved settings token emptyRangeLiteral
    | some range =>
        if settings.strictReferences && (range.cells grid).isEmpty then
          unresolved settings token emptyRangeLiteral
        else .ok (numbersLiteral (range.numbers grid))

/-- What a present cell reads as outside text: its number, or its text. Blanks, and numbers that
are not finite, read as zero. -/
def cellOperand (value : Value) : List Char :=
  match value.cellNumber? with
  | some x => numberLiteral x
  | none =>
      match value with
      | .text content => if value.isBlankText then ['0'] else quote content
      | .number _ => ['0']

def cellLiteral (grid : Grid) (settings : Settings) (readsText : Bool) (token : List Char) :
    Except FormulaError (List Char) :=
  match (Cell.read? token).bind grid.get? with
  | none => unresolved settings token (if readsText then quote [] else ['0'])
  | some value => .ok (if readsText then quote value.shown else cellOperand value)

/-- What a piece reads as at its place, with the given pieces behind it. -/
def resolvePiece (grid : Grid) (settings : Settings) (place : Place) (piece : Piece)
    (rest : List Piece) : Except FormulaError (List Char) :=
  if place.inside || Piece.opensCall rest then .ok piece.chars
  else
    match piece with
    | .plain c => .ok [c]
    | .range token => rangeLiteral grid settings place.readsText token
    | .cell token => cellLiteral grid settings place.readsText token

def resolvePieces (grid : Grid) (settings : Settings) (place : Place) :
    List Piece → Except FormulaError (List Char)
  | [] => .ok []
  | piece :: rest => do
      let literal ← resolvePiece grid settings place piece rest
      let others ← resolvePieces grid settings (piece.chars.foldl Place.step place) rest
      return literal ++ others

/-- Replaces the references of a text by literals. -/
def resolve (grid : Grid) (settings : Settings) (text : List Char) :
    Except FormulaError (List Char) :=
  resolvePieces grid settings {} (Piece.ofChars text)

end Worksheet
