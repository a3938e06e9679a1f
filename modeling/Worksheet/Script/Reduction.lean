import Worksheet.Script.Arguments
import Worksheet.Script.Basic
import Worksheet.Value

/-!
# Reducing calls

A pass replaces every call that contains no other call by the literal of its value, the last one
first. Passes go on until no call is left, and there may be only so many of them, so the limit is
one on how deep calls may nest.

A literal joins the text in front of the name and the text behind the parenthesis. Its own
parentheses and quotes are matched, so the script stays a script.
-/

set_option autoImplicit false

namespace Worksheet.Script

abbrev CallValue := List Char → List (List Char) → Except FormulaError Value

/-- Puts the literal of a value between a text and a script. A negative number is a group. -/
def splice (before : List Char) (value : Value) (rest : Script) : Script :=
  match value with
  | .number x =>
      let x := x + 0.0
      if x < 0.0 then group before (plain (spellNumber x)) rest
      else rest.prepend (before ++ spellNumber x)
  | .text content => rest.prepend (before ++ quote content)

/-- Replaces the calls that contain no other call. -/
def pass (call : CallValue) : Script → Except FormulaError Script
  | plain content => .ok (plain content)
  | group lead inner rest => do
      let rest ← rest.pass call
      if inner.hasCall then return group lead (← inner.pass call) rest
      else
        match callName? lead with
        | some name =>
            let value ← call name (Arguments.split inner.chars)
            return splice (beforeName lead name) value rest
        | none => return group lead inner rest

/-- Replaces all calls in at most `passes` passes; `limit` is named when they do not suffice. -/
def reduce (call : CallValue) (limit : Nat) : Nat → Script → Except FormulaError Script
  | 0, script => if script.hasCall then .error (.tooComplex limit) else .ok script
  | passes + 1, script =>
      if script.hasCall then do reduce call limit passes (← script.pass call)
      else .ok script

def reduceText (call : CallValue) (limit : Nat) (text : List Char) :
    Except FormulaError (List Char) := do
  return (← reduce call limit limit (← ofChars text)).chars

end Worksheet.Script
