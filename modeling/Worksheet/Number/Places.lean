import Worksheet.Number.Decimal

/-!
# Rounding to decimal places

`roundPlaces` rounds a number to decimal places, or to tens, hundreds and so on when the places
are negative. A half goes away from zero, judged by the fifteen leading digits of the scaled
number: the last digits of a floating-point number come from its binary form, so `1.005` counts
as a half although it lies a little below.
-/

set_option autoImplicit false

namespace Worksheet

def placesLimit : Nat := 15

/-- The number with its fifteen leading digits. Above `10 ^ 14` the digits of a whole number are
all kept. -/
def snap (x : Float) : Float :=
  if x.abs < 1e14 then
    ((Magnitude.ofFloat x).toSignificant 15).toFloat (isNegative x)
  else x

def clampPlaces (places : Int) : Int :=
  max (-placesLimit) (min placesLimit places)

/-- Rounds to the given decimal places, a half going away from zero. A number whose scaled form
is not finite stays as it is. -/
def roundPlaces (x : Float) (places : Int) : Float :=
  let places := clampPlaces places
  let factor := nearest false (Nat.pow 10 places.natAbs) 1
  let scaled := if 0 ≤ places then x * factor else x / factor
  if !x.isFinite || !scaled.isFinite then x
  else
    let rounded := roundWhole (snap scaled)
    if 0 ≤ places then rounded / factor else rounded * factor

end Worksheet
