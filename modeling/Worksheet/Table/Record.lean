import Worksheet.Text.Blank
import Worksheet.Text.Lines
import Worksheet.Text.Quoted
import Worksheet.Value

/-!
# Records

A record is one line of comma-separated fields. A comma inside quotes separates nothing, so the
commas that separate are those behind an even number of quotes. The quotes of a field are not part
of its text, but inside quotes a doubled quote spells one. A field without quotes stands for its
text without the blanks around it. A line whose last quotes are never closed is no record.

The text of a field becomes a number if it spells a finite one without blanks around it and without
superfluous leading zeros; codes such as `007` remain text.
-/

set_option autoImplicit false

namespace Worksheet.Record

/-- The fields of a line as they are written. The flag tells whether the line starts inside
quotes. -/
def writtenFields (inside : Bool) : List Char → List (List Char)
  | [] => [[]]
  | c :: rest =>
      if c = '"' then extendFirst c (writtenFields (!inside) rest)
      else if c = ',' ∧ inside = false then [] :: writtenFields inside rest
      else extendFirst c (writtenFields inside rest)

/-- What a field spells. The flag tells whether the text starts inside quotes. -/
def spelled : Bool → List Char → List Char
  | _, [] => []
  | true, '"' :: '"' :: rest => '"' :: spelled true rest
  | inside, '"' :: rest => spelled (!inside) rest
  | inside, c :: rest => c :: spelled inside rest

def fieldText (written : List Char) : List Char :=
  if written.contains '"' then spelled false written else trim written

def fields? (line : List Char) : Option (List (List Char)) :=
  if endsQuoted false line then none else some ((writtenFields false line).map fieldText)

def isZeroPadded : List Char → Bool
  | '0' :: c :: _ => c.isDigit
  | _ => false

def value (text : List Char) : Value :=
  if text.isEmpty ∨ trim text ≠ text ∨ isZeroPadded text then .text text
  else match number? text with
    | some x => if x.isFinite then .number x else .text text
    | none => .text text

end Worksheet.Record
