import Worksheet.Number.Decimal
import Worksheet.Text.Blank

/-!
# Numerals

A numeral is an optional sign, digits with at most one point among or beside them, and an
optional exponent. Reading one rounds once. A plain number is a finite one that is spelled this
way; infinity and not-a-number also have names, which only the reading of data admits.
-/

set_option autoImplicit false

namespace Worksheet

structure Numeral where
  negative : Bool
  magnitude : Decimal
deriving DecidableEq, Repr

namespace Numeral

def toFloat (numeral : Numeral) : Float :=
  numeral.magnitude.toFloat numeral.negative

def takeSign : List Char → Bool × List Char
  | '-' :: rest => (true, rest)
  | '+' :: rest => (false, rest)
  | text => (false, text)

def natural? (text : List Char) : Option Nat :=
  if text ≠ [] ∧ text.all Char.isDigit then some (Nat.ofDigitChars 10 text 0) else none

/-- The power of ten that an exponent part stands for; no such part is the power zero. -/
def exponent? : List Char → Option Int
  | [] => some 0
  | c :: rest =>
      if c = 'e' ∨ c = 'E' then
        let (negative, digits) := takeSign rest
        (natural? digits).map fun n => if negative then -(n : Int) else n
      else none

def takeFraction : List Char → List Char × List Char
  | '.' :: rest => (rest.takeWhile Char.isDigit, rest.dropWhile Char.isDigit)
  | text => ([], text)

def magnitude? (text : List Char) : Option Decimal := do
  let whole := text.takeWhile Char.isDigit
  let (fraction, rest) := takeFraction (text.dropWhile Char.isDigit)
  let digits ← natural? (whole ++ fraction)
  let exponent ← exponent? rest
  return ⟨digits, exponent - fraction.length⟩

def read? (text : List Char) : Option Numeral :=
  let (negative, body) := takeSign text
  (magnitude? body).map fun magnitude => ⟨negative, magnitude⟩

end Numeral

/-- The number that a datum spells: a numeral, or infinity or not-a-number by name in any case. -/
def number? (text : List Char) : Option Float :=
  let (negative, body) := Numeral.takeSign text
  let name := String.ofList (body.map Char.toLower)
  if name = "inf" ∨ name = "infinity" then some (if negative then -1.0 / 0.0 else 1.0 / 0.0)
  else if name = "nan" then some (0.0 / 0.0)
  else (Numeral.read? text).map Numeral.toFloat

/-- The finite number that a text spells as a numeral, with blanks around it or none. -/
def plainNumber? (text : List Char) : Option Float :=
  ((Numeral.read? (trim text)).map Numeral.toFloat).filter Float.isFinite

end Worksheet
