import Mathlib
import Worksheet.Proofs.Script.Arguments
import Worksheet.Proofs.Script.Name

/-!
# Literals in a text

A literal is a number without its sign, a negative number in parentheses, or a quoted text. In any
text it closes what it opens and belongs to one argument.
-/

set_option autoImplicit false

namespace Worksheet

/-- A number without its sign, a negative number in parentheses, or a quoted text. -/
inductive IsLiteral : List Char → Prop
  | number {digits : List Char} (numeric : ∀ c ∈ digits, Token.isNumberChar c = true)
      (digit : ∃ c ∈ digits, c.isDigit = true) : IsLiteral digits
  | negative {digits : List Char} (numeric : ∀ c ∈ digits, Token.isNumberChar c = true) :
      IsLiteral ('(' :: '-' :: (digits ++ [')']))
  | text (content : List Char) : IsLiteral (quote content)

theorem isLiteral_numberLiteral {x : Float} (finite : x.isFinite = true) :
    IsLiteral (numberLiteral x) := by
  obtain ⟨first, rest, same, digit, numeric⟩ := isDigits_unsignedDigits (x + 0.0)
  rcases numberLiteral_cases finite with ⟨_, literal⟩ | ⟨_, literal⟩
  · rw [literal]
    exact .negative numeric
  · rw [literal]
    exact .number numeric ⟨first, same ▸ List.mem_cons_self, digit⟩

theorem isLiteral_literal {value : Value} (finite : value.IsFinite) : IsLiteral value.literal := by
  cases value with
  | number x => exact isLiteral_numberLiteral finite
  | text content => exact .text content

theorem Arguments.isSolid_name {name : List Char} (members : ∀ c ∈ name, isNameChar c = true) :
    IsSolid name := by
  refine isSolid_plain fun c member => ?_
  obtain ⟨notQuote, notOpening, notClosing⟩ := isNameChar_ne (members c member)
  refine ⟨notQuote, notOpening, notClosing, ?_⟩
  rintro rfl
  have comma := members ',' member
  revert comma
  decide

namespace IsLiteral

variable {literal : List Char} (isLiteral : IsLiteral literal)
include isLiteral

theorem checked : Script.check 0 false literal = .ok () := by
  cases isLiteral with
  | number numeric _ =>
      rw [← List.append_nil literal, Script.check_flat (isFlat_numeric numeric)]
      rfl
  | @negative digits numeric =>
      have inner : Script.check 1 false ('-' :: (digits ++ [')'])) =
          Script.check 1 false (digits ++ [')']) := rfl
      have outer : Script.check 0 false ('(' :: '-' :: (digits ++ [')'])) =
          Script.check 1 false ('-' :: (digits ++ [')'])) := rfl
      rw [outer, inner, Script.check_flat (isFlat_numeric numeric)]
      rfl
  | text content =>
      rw [← List.append_nil (quote content), Script.check_flat (isFlat_quoted content)]
      rfl

theorem closed : endsQuoted false literal = false :=
  Script.endsQuoted_of_check isLiteral.checked

theorem isSolid : Arguments.IsSolid literal := by
  have plain {digits : List Char} (numeric : ∀ c ∈ digits, Token.isNumberChar c = true) :
      Arguments.IsSolid digits := by
    refine Arguments.isSolid_plain fun c member => ?_
    obtain ⟨notQuote, notOpening, notClosing⟩ := isNumberChar_ne (numeric c member)
    refine ⟨notQuote, notOpening, notClosing, ?_⟩
    rintro rfl
    have comma := numeric ',' member
    revert comma
    decide
  cases isLiteral with
  | number numeric _ => exact plain numeric
  | negative numeric => exact Arguments.IsSolid.group ((plain numeric).cons (by decide))
  | text content => exact Arguments.isSolid_quote content

theorem visible : literal.all isBlank = false := by
  cases isLiteral with
  | number _ digit =>
      obtain ⟨c, member, isDigit⟩ := digit
      have name : isNameChar c = true := by simp [isNameChar, Char.isAlphanum, isDigit]
      exact List.all_eq_false.mpr ⟨c, member, by simp [isBlank_of_isNameChar name]⟩
  | negative _ => rfl
  | text content => rfl

end IsLiteral

end Worksheet
