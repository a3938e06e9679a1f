import Mathlib
import Worksheet.Proofs.Expression.Literal
import Worksheet.Proofs.Joining.Evaluation
import Worksheet.Proofs.Number.Plain
import Worksheet.Proofs.Tree.Reduction

/-!
# Literals keep their values

What a call comes to is written into the text of the formula and read from there again, as an
expression or as an argument to be joined. Both ways the value is still there, only a zero has
lost its sign on the way.
-/

set_option autoImplicit false

namespace Worksheet

theorem exists_expression_of_literal {value : Value} (finite : value.IsFinite) :
    ∃ expression : Expression, expression.Proper ∧ expression.nesting ≤ 2 ∧
      Token.ofText value.literal = .ok expression.tokens ∧
      expression.eval = .ok (if value = .number (-0.0) then .number 0.0 else value) := by
  cases value with
  | number x =>
      have readable := Tree.readable_numeral (x + 0.0)
      refine ⟨(Tree.numeral (x + 0.0)).expression, Tree.proper_expression readable, ?_, ?_, ?_⟩
      · rw [Tree.nesting_expression]
        exact Tree.nesting_numeral _
      · rw [Value.literal, ← @Tree.spelled_numeral CellWord.token x finite]
        exact Tree.ofText_spelled_alone readable
      · rw [@Tree.eval_expression {} {} _ readable, Tree.value_numeral finite, add_zero_eq finite]
        by_cases zero : x = -0.0
        · simp [zero]
        · simp [zero]
  | text content =>
      refine ⟨.text content, trivial, Nat.zero_le 2, Token.ofText_quote content, ?_⟩
      simp [Expression.eval]

/-- A trimmed argument that is no literal and holds a plain number, in parentheses or not,
contributes the shown form of that number. -/
theorem joinedPart_of_plainNumber {argument : List Char} (trimmed : trim argument = argument)
    (unquoted : unquote? argument = none) {x : Float}
    (number : plainNumber? (Library.withoutParentheses argument) = some x) :
    Library.joinedPart argument = showNumber x := by
  have visible : (trim (Library.withoutParentheses argument)).isEmpty = false := by
    by_contra blank
    have empty : trim (Library.withoutParentheses argument) = [] := by simpa using blank
    rw [plainNumber?, empty] at number
    cases number
  rw [Library.joinedPart, trimmed]
  simp only [unquoted, visible, number, Bool.false_eq_true, if_false]

theorem numberLiteral_eq_spellNumber {x : Float} (finite : x.isFinite = true) :
    numberLiteral x = '(' :: (spellNumber (x + 0.0) ++ [')']) ∨
      numberLiteral x = spellNumber (x + 0.0) ∧
        ∃ first rest, spellNumber (x + 0.0) = first :: rest ∧ first.isDigit = true := by
  rcases numberLiteral_cases finite with ⟨below, literal⟩ | ⟨above, literal⟩
  · left
    rw [literal, spellNumber_of_lt finite below]
    rfl
  · right
    obtain ⟨first, rest, digits, digit, _⟩ := isDigits_unsignedDigits (x + 0.0)
    rw [literal, spellNumber_of_not_lt finite above]
    exact ⟨rfl, first, rest, digits, digit⟩

theorem joinedPart_numberLiteral {x : Float} (finite : x.isFinite = true) :
    Library.joinedPart (numberLiteral x) = showNumber (x + 0.0) := by
  have finite' := isFinite_add_zero finite
  have read := plainNumber?_spellNumber finite'
  rcases numberLiteral_eq_spellNumber finite with enclosed | ⟨plain, first, rest, digits, digit⟩
  · rw [enclosed]
    apply joinedPart_of_plainNumber
    · apply trim_of_ends
      · intro c head
        obtain rfl := Option.some.inj head
        decide
      · intro c last
        rw [← List.cons_append, List.getLast?_concat] at last
        obtain rfl := Option.some.inj last
        decide
    · rfl
    · simpa [Library.withoutParentheses] using read
  · have notQuote : first ≠ '"' := by
      rintro rfl
      exact absurd digit (by decide)
    have notOpening : first ≠ '(' := by
      rintro rfl
      exact absurd digit (by decide)
    rw [plain]
    apply joinedPart_of_plainNumber
    · exact trim_of_visible (visible_spellNumber finite')
    · simp [digits, unquote?, notQuote]
    · have bare : Library.withoutParentheses (spellNumber (x + 0.0)) = spellNumber (x + 0.0) := by
        simp [digits, Library.withoutParentheses, notOpening]
      rw [bare, read]

/-- A literal comes to the value it was written for, also inside as many as 254 parentheses, and
joined alone a number is shown as it would be by itself. -/
theorem literals_keep_values (value : Value) (finite : value.IsFinite) :
    (∀ count ≤ 254,
      Expression.valueOf (List.replicate count '(' ++ value.literal ++ List.replicate count ')') =
        .ok (if value = .number (-0.0) then .number 0.0 else value)) ∧
    ∀ x, value = .number x → ∀ settings,
      Registry.standard.call settings "CONCAT".toList [numberLiteral x] =
        .ok (.text (showNumber (x + 0.0))) := by
  constructor
  · intro count atMost
    obtain ⟨expression, proper, shallow, read, evaluated⟩ := exists_expression_of_literal finite
    have kept : (if value = .number (-0.0) then .number 0.0 else value).IsFinite := by
      split
      · exact (by decide : (0.0 : Float).isFinite = true)
      · exact finite
    have deepest : groupLimit = 256 := rfl
    exact Expression.valueOf_grouped read proper evaluated kept (by omega)
  · intro x isNumber settings
    rw [isNumber] at finite
    have joined := joinedPart_numberLiteral finite
    have called := Registry.call_textFunction settings [numberLiteral x]
    rw [textFunction] at called
    simpa [Library.concat, joined] using called

/-- The sign of a negative number is one more level inside its parentheses, so 254 around them are
the most that can be read. -/
theorem literals_keep_values_of_negative :
    (Value.number (-2.5)).IsFinite ∧
      Expression.valueOf (List.replicate 254 '(' ++ "(-2.5)".toList ++ List.replicate 254 ')') =
        .ok (.number (-2.5)) ∧
      Registry.standard.call {} "CONCAT".toList ["(-2.5)".toList] = .ok (.text "-2.5".toList) := by
  have finite : (Value.number (-2.5)).IsFinite := by
    change (-2.5 : Float).isFinite = true
    decide
  have literal : numberLiteral (-2.5) = "(-2.5)".toList := by decide +kernel
  have shown : showNumber (-2.5 + 0.0) = "-2.5".toList := by decide +kernel
  obtain ⟨read, joined⟩ := literals_keep_values (.number (-2.5)) finite
  have deep := read 254 (by decide)
  have alone := joined (-2.5) rfl {}
  rw [Value.literal, literal, if_neg (by decide)] at deep
  rw [literal, shown] at alone
  exact ⟨finite, deep, alone⟩

end Worksheet
