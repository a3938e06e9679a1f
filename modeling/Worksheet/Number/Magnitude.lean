import Worksheet.Number.Rounding

/-!
# Exact magnitudes of floating-point numbers

A finite floating-point number is a sign and a magnitude `mantissa * 2 ^ exponent`. Reading the
magnitude from the bits is exact, so digits and roundings can be found in whole-number
arithmetic. `nearest` is the way back: it rounds a quotient of naturals once, to the nearest
floating-point number, with ties to the even mantissa.
-/

set_option autoImplicit false

namespace Worksheet

def signBit : Nat := 0x8000000000000000

/-- Tells whether the sign of a number is negative; minus zero has a negative sign. -/
def isNegative (x : Float) : Bool :=
  signBit ≤ x.toBits.toNat

/-- The number `mantissa * 2 ^ exponent`. -/
structure Magnitude where
  mantissa : Nat
  exponent : Int
deriving DecidableEq, Repr

namespace Magnitude

def binade : Nat := 0x10000000000000

/-- Reads the bits below the sign. They number the magnitudes in increasing order. -/
def ofBits (bits : Nat) : Magnitude :=
  if bits / binade = 0 then ⟨bits % binade, -1074⟩
  else ⟨binade + bits % binade, (bits / binade : Nat) - 1075⟩

def ofFloat (x : Float) : Magnitude :=
  ofBits (x.toBits.toNat % signBit)

def numerator (x : Magnitude) : Nat :=
  x.mantissa * Nat.pow 2 x.exponent.toNat

def denominator (x : Magnitude) : Nat :=
  Nat.pow 2 (-x.exponent).toNat

def isWhole (x : Magnitude) : Bool :=
  x.numerator % x.denominator == 0

/-- The exponent `e` with `2 ^ e ≤ n / d < 2 ^ (e + 1)`, for positive `n` and `d`. -/
def binaryExponent (n d : Nat) : Int :=
  let guess : Int := n.log2 - d.log2
  if n * Nat.pow 2 (-guess).toNat < d * Nat.pow 2 guess.toNat then guess - 1 else guess

/-- The bits of the magnitude nearest to `n / d`. The mantissa keeps 53 binary digits, fewer only
below the least exponent; a rounding that carries into a further digit moves to the next exponent
by itself, because consecutive magnitudes have consecutive bits. From the greatest exponent on
the result is infinity. -/
def nearestBits (n d : Nat) : Nat :=
  if n = 0 then 0
  else
    let e := max (-1074) (binaryExponent n d - 52)
    let mantissa := roundDiv .toEven (n * Nat.pow 2 (-e).toNat) (d * Nat.pow 2 e.toNat)
    min ((e + 1074).toNat * binade + mantissa) (2047 * binade)

end Magnitude

def nearest (negative : Bool) (n d : Nat) : Float :=
  Float.ofBits (.ofNat ((if negative then signBit else 0) + Magnitude.nearestBits n d))

/-- The whole number nearest to a finite number, a half going away from zero. The sign stays,
also that of a zero. -/
def roundWhole (x : Float) : Float :=
  let m := Magnitude.ofFloat x
  nearest (isNegative x) (roundDiv .up m.numerator m.denominator) 1

def truncate (x : Float) : Int :=
  let m := Magnitude.ofFloat x
  if isNegative x then -(m.numerator / m.denominator : Nat) else (m.numerator / m.denominator : Nat)

end Worksheet
