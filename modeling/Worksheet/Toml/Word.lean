import Worksheet.Number.Numeral
import Worksheet.Toml.Basic

/-!
# Words in TOML

A word is a value that needs no quotes or brackets: a truth value, an integer, a float, or a date
and time. Underscores may stand between digits. An integer has no superfluous leading zeros and 64
bits, and without a sign it may be hexadecimal, octal or binary. A date exists in the calendar.
-/

set_option autoImplicit false

namespace Worksheet.Toml

/-- Removes the underscores from digits; each of them stands between two digits. -/
def ungrouped? (digit : Char → Bool) : List Char → Option (List Char)
  | [] => none
  | [c] => if digit c then some [c] else none
  | c :: '_' :: rest => if digit c then (ungrouped? digit rest).map (c :: ·) else none
  | c :: rest => if digit c then (ungrouped? digit rest).map (c :: ·) else none

def isPadded (digits : List Char) : Bool :=
  digits.head? == some '0' && digits.length != 1

def digitValue (c : Char) : Nat :=
  if c.isDigit then c.toNat - '0'.toNat else c.toLower.toNat - 'a'.toNat + 10

def isHexDigit (c : Char) : Bool :=
  c.isDigit || 'a' ≤ c.toLower && c.toLower ≤ 'f'

def isOctalDigit (c : Char) : Bool :=
  '0' ≤ c && c ≤ '7'

def isBinaryDigit (c : Char) : Bool :=
  c = '0' || c = '1'

def numberOfDigits (base : Nat) (digits : List Char) : Nat :=
  digits.foldl (fun n c => base * n + digitValue c) 0

def natural? : List Char → Option Nat
  | '0' :: 'x' :: digits => (ungrouped? isHexDigit digits).map (numberOfDigits 16)
  | '0' :: 'o' :: digits => (ungrouped? isOctalDigit digits).map (numberOfDigits 8)
  | '0' :: 'b' :: digits => (ungrouped? isBinaryDigit digits).map (numberOfDigits 2)
  | digits => decimal? digits
where
  decimal? (input : List Char) : Option Nat :=
    ((ungrouped? Char.isDigit input).filter fun digits => !isPadded digits).map (numberOfDigits 10)

def integer? (word : List Char) : Option Int :=
  let n := match word with
    | '-' :: digits => (natural?.decimal? digits).map fun n => -(n : Int)
    | '+' :: digits => (natural?.decimal? digits).map Int.ofNat
    | digits => (natural? digits).map Int.ofNat
  n.filter fun n => Int64.minValue.toInt ≤ n && n ≤ Int64.maxValue.toInt

def takeGroups (input : List Char) : List Char × List Char :=
  input.span fun c => c.isDigit || c == '_'

/-- The digits of a float around its point and in its exponent, without the underscores. There is
a point or an exponent. -/
def floatDigits? (body : List Char) : Option (List Char) := do
  let (whole, rest) := takeGroups body
  let whole ← (ungrouped? Char.isDigit whole).filter fun digits => !isPadded digits
  let (fraction, rest) ← match rest with
    | '.' :: rest =>
        let (fraction, rest) := takeGroups rest
        (ungrouped? Char.isDigit fraction).map fun digits => ('.' :: digits, rest)
    | _ => if rest.isEmpty then none else some ([], rest)
  match rest with
  | [] => return whole ++ fraction
  | mark :: rest =>
      let (negative, power) := Numeral.takeSign rest
      let power ← if mark.toLower = 'e' then ungrouped? Char.isDigit power else none
      return whole ++ fraction ++ 'e' :: (if negative then '-' :: power else power)

/-- A float. One that is too great to be finite is an error, but not if it is negative. -/
def float? (word : List Char) : Option Float :=
  let (negative, body) := Numeral.takeSign word
  if body = "inf".toList ∨ body = "nan".toList then number? word
  else do
    let digits ← floatDigits? body
    (number? (if negative then '-' :: digits else digits)).filter fun x => x != 1.0 / 0.0

def takeNumber? (count least most : Nat) (input : List Char) : Option (Nat × List Char) :=
  let digits := input.take count
  let n := numberOfDigits 10 digits
  if digits.length = count ∧ digits.all Char.isDigit ∧ least ≤ n ∧ n ≤ most then
    some (n, input.drop count)
  else none

def takeChar? (c : Char) : List Char → Option (List Char)
  | first :: rest => if first = c then some rest else none
  | [] => none

def daysInMonth (year month : Nat) : Nat :=
  if month = 2 then
    if year % 4 = 0 ∧ (year % 100 ≠ 0 ∨ year % 400 = 0) then 29 else 28
  else if month = 4 ∨ month = 6 ∨ month = 9 ∨ month = 11 then 30
  else 31

def afterDate? (input : List Char) : Option (List Char) := do
  let (year, rest) ← takeNumber? 4 0 9999 input
  let (month, rest) ← takeNumber? 2 1 12 (← takeChar? '-' rest)
  let (_, rest) ← takeNumber? 2 1 (daysInMonth year month) (← takeChar? '-' rest)
  return rest

def afterTime? (input : List Char) : Option (List Char) := do
  let (_, rest) ← takeNumber? 2 0 23 input
  let (_, rest) ← takeNumber? 2 0 59 (← takeChar? ':' rest)
  let (_, rest) ← takeNumber? 2 0 60 (← takeChar? ':' rest)
  match rest with
  | '.' :: c :: more => if c.isDigit then return more.dropWhile Char.isDigit else none
  | _ => return rest

def isOffset : List Char → Bool
  | [] => true
  | sign :: input =>
      if sign = '+' ∨ sign = '-' then
        (do
          let (_, rest) ← takeNumber? 2 0 23 input
          let (_, rest) ← takeNumber? 2 0 59 (← takeChar? ':' rest)
          return rest) == some []
      else sign.toLower = 'z' && input.isEmpty

/-- Tells whether a text is a date, a time, or a date and a time with or without an offset. -/
def isMoment (input : List Char) : Bool :=
  match afterDate? input with
  | some [] => true
  | some (separator :: time) =>
      (separator.toLower = 't' || separator = ' ') && (afterTime? time).any isOffset
  | none => afterTime? input == some []

def ofWord? (word : List Char) : Option Toml :=
  if word = "true".toList then some (boolean true)
  else if word = "false".toList then some (boolean false)
  else if isMoment word then some (moment word)
  else (integer? word).map integer <|> (float? word).map float

end Worksheet.Toml
