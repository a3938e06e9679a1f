import Worksheet.Function.Basic

/-!
# Aggregates

Functions of any number of numbers. Sums and products are taken from left to right, so their
rounding depends on the order; the extremes, the count and the median do not.
-/

set_option autoImplicit false

namespace Worksheet.Aggregate

/-- The sum of no numbers is minus zero, which changes no other sum. -/
def sum (numbers : List Float) : Float :=
  numbers.foldl (· + ·) (-0.0)

def product (numbers : List Float) : Float :=
  numbers.foldl (· * ·) 1.0

/-- The smaller number; of equal ones the first. -/
def smaller (a b : Float) : Float :=
  if b < a then b else a

def larger (a b : Float) : Float :=
  if a < b then b else a

/-- The mean, and zero for no numbers. -/
def average (numbers : List Float) : Float :=
  if numbers.isEmpty then 0.0 else sum numbers / Float.ofNat numbers.length

/-- The place of a number in the order of all numbers, in which minus zero comes before zero. -/
def orderKey (x : Float) : Int :=
  let bits : Int := x.toBits.toNat
  if isNegative x then signBit - 1 - bits else bits

def sorted (numbers : List Float) : List Float :=
  numbers.mergeSort fun a b => orderKey a ≤ orderKey b

/-- The middle number in order, the mean of the two middle ones, and zero for no numbers. -/
def median (numbers : List Float) : Float :=
  let inOrder := sorted numbers
  let middle := numbers.length / 2
  if numbers.isEmpty then 0.0
  else if numbers.length % 2 = 0 then
    (inOrder.getD (middle - 1) 0.0 + inOrder.getD middle 0.0) / 2.0
  else inOrder.getD middle 0.0

/-- The number that wins every comparison in turn; the settings decide for no numbers. -/
def extremum (name : String) (pick : Float → Float → Float) (numbers : List Float)
    (settings : Settings) : Except FormulaError Value :=
  match numbers, settings.emptyExtremum with
  | first :: rest, _ => .ok (.number (rest.foldl pick first))
  | [], .zero => .ok (.number 0.0)
  | [], .error => .error (.invalidExpression (.emptySet name.toList))

def productOrEmpty (numbers : List Float) (settings : Settings) : Float :=
  match numbers, settings.emptyProduct with
  | [], .zero => 0.0
  | [], .one => 1.0
  | _, _ => product numbers

end Worksheet.Aggregate
