import Mathlib
import Worksheet.Formula.Check
import Worksheet.Script.Basic

/-!
# The check of a formula and the reading of its body

The check blanks out the literals first and counts parentheses afterwards; reading does both in one
pass. Still they agree on every text: the check complains about a quote or a parenthesis exactly
when the body cannot be read as a script.
-/

set_option autoImplicit false

namespace Worksheet

theorem Script.check_iff (depth : Nat) (inside : Bool) (text : List Char) :
    Script.check depth inside text = .ok () ↔
      endsQuoted inside text = false ∧
        Formula.isBalanced depth (maskFrom inside text) = true := by
  induction text generalizing depth inside with
  | nil =>
      cases inside
      · by_cases closed : depth = 0 <;> simp [Script.check, endsQuoted, Formula.isBalanced, maskFrom, closed]
      · simp [Script.check, endsQuoted]
  | cons c rest ih =>
      by_cases isQuote : c = '"'
      · simp [Script.check, endsQuoted, maskFrom, Formula.isBalanced, isQuote, ih]
      · cases inside with
        | true => simp [Script.check, endsQuoted, maskFrom, Formula.isBalanced, isQuote, ih]
        | false =>
            by_cases isOpening : c = '('
            · simp [Script.check, endsQuoted, maskFrom, Formula.isBalanced, isOpening, ih]
            · by_cases isClosing : c = ')'
              · by_cases closed : depth = 0 <;>
                  simp [Script.check, endsQuoted, maskFrom, Formula.isBalanced, isClosing, ih, closed]
              · simp [Script.check, endsQuoted, maskFrom, Formula.isBalanced, isQuote, isOpening,
                  isClosing, ih]

/-- Reading fails for a reason that blanking and counting find as well. -/
theorem Script.check_eq_error {depth : Nat} {inside : Bool} {text : List Char}
    {error : FormulaError} (failed : Script.check depth inside text = .error error) :
    error = .invalidExpression .unterminatedString ∧ endsQuoted inside text = true ∨
      error = .unbalancedParentheses ∧
        Formula.isBalanced depth (maskFrom inside text) = false := by
  induction text generalizing depth inside with
  | nil =>
      cases inside with
      | true => exact .inl ⟨(Except.error.inj failed).symm, rfl⟩
      | false =>
          by_cases closed : depth = 0
          · simp [Script.check, closed] at failed
          · right
            simp only [Script.check, closed, Bool.false_eq_true, if_false, Except.error.injEq]
              at failed
            exact ⟨failed.symm, by simp [Formula.isBalanced, maskFrom, closed]⟩
  | cons c rest ih =>
      by_cases isQuote : c = '"'
      · simp only [Script.check, if_pos isQuote] at failed
        simpa [endsQuoted, maskFrom, Formula.isBalanced, isQuote] using ih failed
      cases inside with
      | true =>
          simp only [Script.check, if_neg isQuote, if_true] at failed
          simpa [endsQuoted, maskFrom, Formula.isBalanced, isQuote] using ih failed
      | false =>
          simp only [Script.check, if_neg isQuote, Bool.false_eq_true, if_false] at failed
          by_cases isOpening : c = '('
          · rw [if_pos isOpening] at failed
            simpa [endsQuoted, maskFrom, Formula.isBalanced, isOpening] using ih failed
          rw [if_neg isOpening] at failed
          by_cases isClosing : c = ')'
          · by_cases closed : depth = 0
            · rw [if_pos isClosing, if_pos closed] at failed
              right
              exact ⟨(Except.error.inj failed).symm,
                by simp [maskFrom, Formula.isBalanced, isClosing, closed]⟩
            · rw [if_pos isClosing, if_neg closed] at failed
              simpa [endsQuoted, maskFrom, Formula.isBalanced, isClosing, closed] using ih failed
          · rw [if_neg isClosing] at failed
            simpa [endsQuoted, maskFrom, Formula.isBalanced, isQuote, isOpening, isClosing]
              using ih failed

theorem Script.innermost_eq_error {text : List Char} {error : FormulaError} :
    innermost 0 <$> ofChars text = .error error ↔ check 0 false text = .error error := by
  cases checked : check 0 false text <;>
    simp [ofChars, checked, bind, Except.bind, pure, Except.pure]

theorem endsQuoted_iff_count (inside : Bool) (text : List Char) :
    endsQuoted inside text = true ↔ (text.count '"' + inside.toNat) % 2 = 1 := by
  induction text generalizing inside with
  | nil => cases inside <;> decide
  | cons c rest ih =>
      rw [endsQuoted, ih]
      by_cases isQuote : c = '"'
      · rw [if_pos isQuote, isQuote, List.count_cons_self]
        cases inside
        · simp only [Bool.not_false, Bool.toNat_true, Bool.toNat_false, Nat.add_zero]
        · simp only [Bool.not_true, Bool.toNat_true, Bool.toNat_false]
          omega
      · rw [if_neg isQuote, List.count_cons_of_ne isQuote]

namespace Formula

theorem unterminated_mem_check {registry : Registry} {formula : List Char}
    (nonempty : body formula ≠ []) :
    .invalidExpression .unterminatedString ∈ check registry formula ↔
      endsQuoted false (body formula) = true := by
  simp [check, nonempty]

theorem unbalanced_mem_check {registry : Registry} {formula : List Char}
    (nonempty : body formula ≠ []) :
    .unbalancedParentheses ∈ check registry formula ↔
      isBalanced 0 (maskQuoted (body formula)) = false := by
  simp [check, nonempty]

/-- The check of a formula complains about a literal that is never closed or about parentheses
exactly when no calls can be found in its body, and what reading complains about is among the
complaints of the check. It complains about the literal exactly when the quotes of the body are odd
in number. -/
theorem check_agrees_with_reading (registry : Registry) {formula : List Char}
    (nonempty : body formula ≠ []) :
    (.invalidExpression .unterminatedString ∈ check registry formula ∨
        .unbalancedParentheses ∈ check registry formula ↔
      ∃ error, Script.innermost 0 <$> Script.ofChars (body formula) = .error error) ∧
      (∀ error, Script.innermost 0 <$> Script.ofChars (body formula) = .error error →
        error ∈ check registry formula) ∧
      (.invalidExpression .unterminatedString ∈ check registry formula ↔
        (body formula).count '"' % 2 = 1) := by
  have listed (error : FormulaError)
      (failed : Script.check 0 false (body formula) = .error error) :
      error ∈ check registry formula := by
    rcases Script.check_eq_error failed with ⟨rfl, opened⟩ | ⟨rfl, unbalanced⟩
    · exact (unterminated_mem_check nonempty).mpr opened
    · exact (unbalanced_mem_check nonempty).mpr unbalanced
  simp only [Script.innermost_eq_error]
  refine ⟨⟨fun complains => ?_, fun ⟨error, failed⟩ => ?_⟩, listed, ?_⟩
  · cases checked : Script.check 0 false (body formula) with
    | error error => exact ⟨error, rfl⟩
    | ok _ =>
        obtain ⟨closed, balanced⟩ := (Script.check_iff 0 false _).mp checked
        rw [unterminated_mem_check nonempty, unbalanced_mem_check nonempty, maskQuoted, closed,
          balanced] at complains
        simp at complains
  · rcases Script.check_eq_error failed with ⟨rfl, _⟩ | ⟨rfl, _⟩
    · exact .inl (listed _ failed)
    · exact .inr (listed _ failed)
  · rw [unterminated_mem_check nonempty, endsQuoted_iff_count]
    simp

/-- A closing parenthesis stands in front of a literal that stays open: both complaints are due, and
reading stops at the parenthesis. -/
theorem check_agrees_with_reading_of_stray :
    .unbalancedParentheses ∈ check .standard "=1)&\"a".toList ∧
      .invalidExpression .unterminatedString ∈ check .standard "=1)&\"a".toList := by
  have agrees := @check_agrees_with_reading .standard "=1)&\"a".toList (by decide)
  exact ⟨agrees.2.1 .unbalancedParentheses (by decide), agrees.2.2.mpr (by decide)⟩

theorem check_body {registry : Registry} {formula : List Char}
    (clean : check registry formula = []) : Script.check 0 false (body formula) = .ok () := by
  unfold check at clean
  simp only [] at clean
  split at clean
  · cases clean
  · rw [List.append_eq_nil_iff, List.append_eq_nil_iff] at clean
    obtain ⟨⟨quotes, parentheses⟩, _⟩ := clean
    rw [Script.check_iff]
    constructor
    · by_contra unterminated
      simp [unterminated] at quotes
    · by_contra unbalanced
      change ¬ isBalanced 0 (maskQuoted (body formula)) = true at unbalanced
      simp [unbalanced] at parentheses

end Formula

end Worksheet
