import Worksheet.Number.Magnitude

/-!
# Decimals

A decimal is `digits * 10 ^ exponent`. Here a magnitude becomes a decimal in three ways: rounded
to a number of places, rounded to a number of significant digits, and as the shortest decimal
that reads back. A decimal reads back when it lies among the reals that round to the magnitude,
from halfway to the value below up to halfway to the value above. `Decimal.toFloat` is the way
back.
-/

set_option autoImplicit false

namespace Worksheet

/-- The number `digits * 10 ^ exponent`. -/
structure Decimal where
  digits : Nat
  exponent : Int
deriving DecidableEq, Repr

def digitChars (n : Nat) : List Char :=
  Nat.toDigits 10 n

namespace Decimal

def numerator (d : Decimal) : Nat :=
  d.digits * Nat.pow 10 d.exponent.toNat

def denominator (d : Decimal) : Nat :=
  Nat.pow 10 (-d.exponent).toNat

/-- Moves up to `limit` zeros from the end of the digits into the exponent. -/
def dropZeros : Nat → Decimal → Decimal
  | 0, d => d
  | limit + 1, d =>
      if d.digits % 10 = 0 then dropZeros limit ⟨d.digits / 10, d.exponent + 1⟩ else d

/-- The nearest floating-point number. A decimal of 310 or more whole digits is beyond the
greatest one, and one below `10 ^ -324` is nearer to zero than to the least; both are settled
without forming the power of ten. -/
def toFloat (negative : Bool) (d : Decimal) : Float :=
  let scale : Int := (digitChars d.digits).length + d.exponent
  if d.digits = 0 || scale ≤ -324 then nearest negative 0 1
  else if 310 ≤ scale then nearest negative (Nat.pow 10 310) 1
  else nearest negative d.numerator d.denominator

end Decimal

namespace Magnitude

def digitsAt (tie : Tie) (place : Int) (x : Magnitude) : Nat :=
  roundDiv tie (x.numerator * Nat.pow 10 (-place).toNat) (x.denominator * Nat.pow 10 place.toNat)

/-- The multiple of `10 ^ -places` nearest to the magnitude, a half going to the even digit. -/
def toPlaces (places : Nat) (x : Magnitude) : Decimal :=
  ⟨x.digitsAt .toEven (-places), -places⟩

/-- The least `k` with `x < 10 ^ k`, for a positive magnitude: no magnitude is below `10 ^ -324`,
so four hundred more places leave only whole digits to count. -/
def decimalScale (x : Magnitude) : Int :=
  (digitChars (x.numerator * Nat.pow 10 400 / x.denominator)).length - 400

def toSignificant (count : Nat) (x : Magnitude) : Decimal :=
  let place := x.decimalScale - count
  ⟨x.digitsAt .toEven place, place⟩

/-- Compares `digits * 10 ^ place` with `quarters` quarters of the last place of the mantissa. -/
def compareQuarters (x : Magnitude) (d : Decimal) (quarters : Nat) : Ordering :=
  compare (d.numerator * 4 * Nat.pow 2 (-x.exponent).toNat)
    (quarters * Nat.pow 2 x.exponent.toNat * d.denominator)

/-- The quarters from zero to the middle of the gap below. At the foot of a binade that gap is
half as wide as the one above. -/
def lowerQuarters (x : Magnitude) : Nat :=
  if x.mantissa = binade ∧ -1074 < x.exponent then 4 * x.mantissa - 1 else 4 * x.mantissa - 2

def upperQuarters (x : Magnitude) : Nat :=
  4 * x.mantissa + 2

/-- Tells whether the reals that round to the magnitude include the decimal. The two ends belong
to them exactly when the mantissa is even. -/
def readsBack (x : Magnitude) (d : Decimal) : Bool :=
  let low := x.compareQuarters d x.lowerQuarters
  let high := x.compareQuarters d x.upperQuarters
  if x.mantissa % 2 = 0 then low != .lt && high != .gt else low == .gt && high == .lt

/-- The decimal with unit `10 ^ place` that reads back, if there is one; of two, the nearer. -/
def onGrid? (tie : Tie) (place : Int) (x : Magnitude) : Option Decimal :=
  let below := x.numerator * Nat.pow 10 (-place).toNat / (x.denominator * Nat.pow 10 place.toNat)
  match x.readsBack ⟨below, place⟩, x.readsBack ⟨below + 1, place⟩ with
  | true, true => some ⟨x.digitsAt tie place, place⟩
  | true, false => some ⟨below, place⟩
  | false, true => some ⟨below + 1, place⟩
  | false, false => none

def toDecimal (x : Magnitude) : Decimal :=
  if x.exponent < 0 then ⟨x.mantissa * Nat.pow 5 (-x.exponent).toNat, x.exponent⟩
  else ⟨x.mantissa * Nat.pow 2 x.exponent.toNat, 0⟩

/-- The decimal with the fewest digits that reads back, for a positive magnitude; of several the
nearest, and of two equally near the one that the tie rule picks. -/
def shortest (tie : Tie) (x : Magnitude) : Decimal :=
  let found := (List.range 17).findSome? fun count =>
    x.onGrid? tie (x.decimalScale - (count + 1 : Nat))
  (found.getD x.toDecimal).dropZeros 17

end Magnitude

end Worksheet
