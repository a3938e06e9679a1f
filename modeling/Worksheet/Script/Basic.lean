import Worksheet.FormulaError
import Worksheet.Script.Name
import Worksheet.Text.Quoted

/-!
# Scripts

A script is a text whose parentheses are matched: plain text, or a group in parentheses with the
text in front of it and the script behind it. Parentheses inside quoted literals are plain text.
A group with a name in front of it is a call.

Reading a script loses nothing: `Script.chars` gives the text back.
-/

set_option autoImplicit false

namespace Worksheet

inductive Script where
  | plain (content : List Char)
  | group (lead : List Char) (inner rest : Script)
deriving DecidableEq, Repr

namespace Script

def chars : Script → List Char
  | plain content => content
  | group lead inner rest => lead ++ '(' :: inner.chars ++ ')' :: rest.chars

def prepend (text : List Char) : Script → Script
  | plain content => plain (text ++ content)
  | group lead inner rest => group (text ++ lead) inner rest

/-- Checks the parentheses outside literals and the end of the last literal. `depth` counts the
parentheses that are open. A parenthesis that closes nothing is found before an open literal is,
and that before a parenthesis that stays open. -/
def check (depth : Nat) (inside : Bool) : List Char → Except FormulaError Unit
  | [] =>
      if inside then .error (.invalidExpression .unterminatedString)
      else if depth = 0 then .ok () else .error .unbalancedParentheses
  | c :: rest =>
      if c = '"' then check depth (!inside) rest
      else if inside then check depth inside rest
      else if c = '(' then check (depth + 1) inside rest
      else if c = ')' then
        if depth = 0 then .error .unbalancedParentheses else check (depth - 1) inside rest
      else check depth inside rest

def prependFirst (c : Char) : List Script → List Script
  | [] => []
  | first :: outer => first.prepend [c] :: outer

/-- Matches the parentheses of a text from its end. The first script is the one in progress; the
others wait for the parentheses that open in front of it. -/
def levels (inside : Bool) : List Char → List Script
  | [] => [plain []]
  | c :: rest =>
      if c = '"' then prependFirst c (levels (!inside) rest)
      else if inside then prependFirst c (levels inside rest)
      else if c = '(' then
        match levels inside rest with
        | inner :: outer :: waiting => group [] inner outer :: waiting
        | unmatched => prependFirst c unmatched
      else if c = ')' then plain [] :: levels inside rest
      else prependFirst c (levels inside rest)

def ofChars (text : List Char) : Except FormulaError Script := do
  check 0 false text
  return (levels false text).headD (plain [])

def callName? (lead : List Char) : Option (List Char) :=
  nameBehind? lead.reverse

def beforeName (lead name : List Char) : List Char :=
  lead.take (lead.length - name.length)

def hasCall : Script → Bool
  | plain _ => false
  | group lead inner rest => (callName? lead).isSome || inner.hasCall || rest.hasCall

/-- Where a call stands in a text, in bytes. -/
structure CallSite where
  name : List Char
  start : Nat
  opening : Nat
  closing : Nat
deriving DecidableEq, Repr

def byteSize : List Char → Nat
  | [] => 0
  | c :: rest => c.utf8Size + byteSize rest

theorem byteSize_append (first second : List Char) :
    byteSize (first ++ second) = byteSize first + byteSize second := by
  induction first with
  | nil => simp [byteSize]
  | cons c rest ih => simp only [List.cons_append, byteSize, ih, Nat.add_assoc]

def size : Script → Nat
  | plain content => byteSize content
  | group lead inner rest => byteSize lead + 1 + inner.size + 1 + rest.size

theorem byteSize_chars (script : Script) : byteSize script.chars = script.size := by
  induction script with
  | plain content => rfl
  | group lead inner rest ihInner ihRest =>
      have opening : '('.utf8Size = 1 := by decide
      have closing : ')'.utf8Size = 1 := by decide
      simp only [chars, size, byteSize_append, byteSize, opening, closing, ihInner, ihRest]
      omega

/-- The calls that contain no other call, from left to right; the script starts at `offset`. -/
def innermost (offset : Nat) : Script → List CallSite
  | plain _ => []
  | group lead inner rest =>
      let opening := offset + byteSize lead
      let closing := opening + 1 + inner.size
      (if inner.hasCall then inner.innermost (opening + 1)
        else
          match callName? lead with
          | some name => [⟨name, opening - byteSize name, opening, closing⟩]
          | none => []) ++
        rest.innermost (closing + 1)

end Script

end Worksheet
