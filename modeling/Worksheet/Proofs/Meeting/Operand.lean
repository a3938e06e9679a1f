import Mathlib
import Worksheet.Proofs.Meeting.Argument
import Worksheet.Proofs.Reference.Part
import Worksheet.Proofs.Script.Rewriting

/-!
# Operands side by side

Each operand becomes a literal: a call that of its value, a cell that of what it holds, and a number
or a quoted text stands for itself. Where it is replaced depends on what is around it, but not what
by, unless the name of a call is lost to a digit in front of it.
-/

set_option autoImplicit false

namespace Worksheet

def Calculator.rewrite (calculator : Calculator) (grid : Grid) (text : List Char) :
    Except FormulaError (List Char) := do
  calculator.reduce (← resolve grid calculator.settings text)

inductive Operand where
  | call (name inner : List Char)
  | cell (token : List Char)
  | number (digits : List Char)
  | text (content : List Char)

namespace Operand

def spelled : Operand → List Char
  | call name inner => name ++ '(' :: (inner ++ [')'])
  | cell token => token
  | number digits => digits
  | text content => quote content

def literal (calculator : Calculator) (grid : Grid) : Operand → Except FormulaError (List Char)
  | call name inner => calculator.rewrite grid (call name inner).spelled
  | cell token => cellLiteral grid calculator.settings false token
  | number digits => .ok digits
  | text content => .ok (quote content)

/-- The operand is read as a whole between what stands in front of it and what stands behind it. -/
def IsWhole (before after : List Char) : Operand → Prop
  | call name inner =>
      Script.callName? (before ++ name) = some name ∧ Script.check 0 false inner = .ok ()
  | cell token => Piece.ofChars (before ++ token) = Piece.ofChars before ++ [.cell token]
  | number digits =>
      (∀ c ∈ digits, Token.isNumberChar c = true) ∧ (∃ c ∈ digits, c.isDigit = true) ∧
        ∀ c ∈ after.head?, Token.isNumberChar c = false ∧ c ≠ ':'
  | text _ => after.head? ≠ some '"'

/-- The operands that can stand directly side by side: behind a call anything but a cell, and behind
a cell what is no word. -/
def MayMeet : Operand → Operand → Prop
  | call _ _, cell _ => False
  | call _ _, _ => True
  | cell _, number digits => digits.head? = some '.'
  | cell _, text _ => True
  | _, _ => False

variable {before after : List Char}

theorem checked {operand : Operand} (whole : operand.IsWhole before after) :
    Script.check 0 false operand.spelled = .ok () := by
  cases operand with
  | call name inner =>
      obtain ⟨named, checkedInner⟩ := whole
      exact Script.check_group (Script.check_of_plain (isPlain_of_name named)) checkedInner []
  | cell token =>
      have member : Piece.cell token ∈ Piece.ofChars (before ++ token) := whole ▸ by simp
      exact Script.check_of_plain fun c inside =>
        Piece.isReferenceChar_ne (isReferenceChar_of_mem none _ _ member nofun c inside)
  | number digits => exact Script.check_of_plain fun c member => isNumberChar_ne (whole.1 c member)
  | text content => exact (IsLiteral.text content).checked

def StandsForItself : Operand → Prop
  | number _ => True
  | text _ => True
  | _ => False

theorem cuts_of_mayMeet {token : List Char} {operand : Operand}
    (meet : (cell token).MayMeet operand) :
    operand.StandsForItself ∧ ∃ c more, operand.spelled = c :: more ∧ Piece.Cuts c ∧ c ≠ '(' := by
  cases operand with
  | call | cell => exact meet.elim
  | number digits =>
      obtain ⟨more, rfl⟩ := List.head?_eq_some_iff.mp meet
      exact ⟨trivial, '.', more, rfl, Piece.cuts_of_mem (by decide), by decide⟩
  | text content => exact ⟨trivial, '"', _, rfl, Piece.cuts_of_mem (by decide), by decide⟩

section

variable {operand : Operand} (itself : operand.StandsForItself)
  (whole : operand.IsWhole before after)
include itself

theorem literal_itself (calculator : Calculator) (grid : Grid) :
    operand.literal calculator grid = .ok operand.spelled := by
  cases operand <;> first | exact itself.elim | rfl

include whole

theorem isLiteral_itself : IsLiteral operand.spelled := by
  cases operand with
  | call | cell => exact itself.elim
  | number digits => exact .number whole.1 whole.2.1
  | text content => exact .text content

theorem resolves_itself {grid : Grid} {settings : Settings} {place : Place}
    (outside : place.inside = false) :
    Resolves grid settings after place operand.spelled operand.spelled
      (operand.spelled.foldl Place.step place) := by
  cases operand with
  | call | cell => exact itself.elim
  | number digits =>
      obtain ⟨numeric, _, ends⟩ := whole
      refine resolves_number numeric (fun c member => ?_) (fun colon => (ends ':' colon).2 rfl) place
      have other := (ends c member).1
      simp only [Token.isNumberChar, Bool.or_eq_false_iff] at other
      exact other.1
  | text content => exact resolves_quote content after outside

end

end Operand

end Worksheet
