import Worksheet.Number.Decimal

/-!
# Spelling numbers

A number is shown to ten places without idle zeros, and spelled for reading back with the fewest
digits. Both are positional and never use an exponent. A report writes numbers in its own way,
with a point always and an exponent for the very large and the very small.
-/

set_option autoImplicit false

namespace Worksheet

namespace Decimal

def positional (d : Decimal) : List Char :=
  let digits := digitChars d.digits
  if 0 ≤ d.exponent then digits ++ List.replicate d.exponent.toNat '0'
  else
    let places := (-d.exponent).toNat
    if places < digits.length then
      digits.take (digits.length - places) ++ '.' :: digits.drop (digits.length - places)
    else '0' :: '.' :: (List.replicate (places - digits.length) '0' ++ digits)

end Decimal

def shownPlaces : Nat := 10

def signed (negative : Bool) (digits : List Char) : List Char :=
  if negative then '-' :: digits else digits

/-- The form in which a number is shown: rounded to ten places, without zeros at the end of the
fraction, and without a sign when nothing but zeros is left. -/
def showNumber (x : Float) : List Char :=
  if x.isNaN then "#NAN!".toList
  else if x.isInf then "#INF!".toList
  else
    let rounded := (Magnitude.ofFloat x).toPlaces shownPlaces
    signed (isNegative x && rounded.digits != 0) (rounded.dropZeros shownPlaces).positional

/-- The digits of a magnitude that read back, as few as possible; a tie goes up. -/
def spellMagnitude (x : Magnitude) : List Char :=
  if x.mantissa = 0 then ['0'] else (x.shortest .up).positional

def spellNumber (x : Float) : List Char :=
  if x.isNaN then "NaN".toList
  else signed (isNegative x)
    (if x.isInf then "inf".toList else spellMagnitude (Magnitude.ofFloat x))

def positionalExponents : Int × Int := (-5, 15)

def Decimal.pointed (d : Decimal) : List Char :=
  if 0 ≤ d.exponent then d.positional ++ ".0".toList else d.positional

def Decimal.scientific (d : Decimal) (leading : Int) : List Char :=
  let mantissa :=
    match digitChars d.digits with
    | first :: next :: rest => first :: '.' :: next :: rest
    | single => single
  mantissa ++ 'e' :: (if leading < 0 then '-' else '+') :: digitChars leading.natAbs

/-- The form of a finite number in a report: the fewest digits that read back, a tie going to the
even digit. -/
def reportNumber (x : Float) : List Char :=
  let m := Magnitude.ofFloat x
  signed (isNegative x) <|
    if m.mantissa = 0 then "0.0".toList
    else
      let d := m.shortest .toEven
      let leading : Int := (digitChars d.digits).length + d.exponent - 1
      if positionalExponents.1 ≤ leading ∧ leading ≤ positionalExponents.2 then d.pointed
      else d.scientific leading

end Worksheet
