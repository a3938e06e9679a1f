import Worksheet.Table.Basic
import Worksheet.Table.Record

/-!
# Reading tables

A table is read from a text with one record on each line. Blank lines do not count, except that a
line goes by its number among all lines. The first record may hold the headers.
-/

set_option autoImplicit false

namespace Worksheet

inductive TableError where
  /-- A line, counted from one, ends inside quotes. -/
  | unterminatedField (line : Nat)
  | empty
deriving DecidableEq, Repr

def TableError.message : TableError → String
  | unterminatedField line =>
      "Parse error at line " ++ toString line ++ ": unterminated quoted field"
  | empty => "CSV file is empty"

def isBlankLine (line : List Char) : Bool :=
  (trim line).isEmpty

def records (text : List Char) : Except TableError (List (List (List Char))) :=
  (((lines text).zipIdx 1).filter fun (line, _) => !isBlankLine line).mapM
    fun (line, number) => (Record.fields? line).elim (.error (.unterminatedField number)) .ok

/-- Reads a table. The flag tells whether the first record holds the headers. -/
def Table.ofText (headed : Bool) (text : List Char) : Except TableError Table := do
  match ← records text with
  | [] => .error .empty
  | first :: rest =>
      if headed then return ⟨first, ⟨rest.map (·.map Record.value)⟩⟩
      else return ⟨[], ⟨(first :: rest).map (·.map Record.value)⟩⟩

end Worksheet
