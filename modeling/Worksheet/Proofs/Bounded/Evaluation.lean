import Mathlib
import Worksheet.Formula.Calculator
import Worksheet.Proofs.Bounded.Function
import Worksheet.Proofs.Bounded.Reduction
import Worksheet.Proofs.Bounded.Resolution

/-!
# Evaluation within bounds

A formula can be evaluated by offsets and indices throughout: its bytes are classified one by one,
its references are cut out, its calls are found and replaced by their offsets, its arguments are cut
off at commas, its expressions are read by indices and with a count of what is open. None of these
ever asks for what is not there, whatever the formula, the grid and the settings are, and the outcome
is the one that the calculator gives.
-/

set_option autoImplicit false

namespace Worksheet

open Script (CallValue)

def Expression.arithmeticAt (text : List Char) : Bounded Float :=
  if text.all isArithmeticChar then do
    match ← valueOfAt text with
    | .number x => return x
    | .text _ => throw (.invalidExpression .numberExpected)
  else throw (.invalidExpression .unexpectedCharacter)

def resultAt (text : List Char) : Bounded Value :=
  match unquote? (trim text) with
  | some content => return .text content
  | none => do return .number ((← Expression.arithmeticAt (trim text)) + 0.0)

def evaluateAt (settings : Settings) (formula : List Char) (grid : Grid) : Bounded Value :=
  match Formula.check .standard formula with
  | error :: _ => throw error
  | [] => do
      let resolved ← resolveAt grid settings (Formula.body formula)
      let reduced ←
        Script.reduceAt (callAt settings) settings.nestingLimit settings.nestingLimit resolved
      resultAt reduced

theorem Expression.arithmeticAt_eq (text : List Char) :
    arithmeticAt text = Bounded.within (arithmeticOf text) := by
  rw [arithmeticAt, arithmeticOf]
  split
  · rw [valueOfAt_eq]
    rcases valueOf text with error | ⟨x⟩ | ⟨content⟩ <;> rfl
  · rfl

theorem resultAt_eq (text : List Char) : resultAt text = Bounded.within (Calculator.result text) := by
  rw [resultAt, Calculator.result]
  cases unquote? (trim text) with
  | some content => rfl
  | none =>
      dsimp only
      rw [Expression.arithmeticAt_eq]
      cases Expression.arithmeticOf (trim text) <;> rfl

/-- Every formula is evaluated within bounds on every grid and with all settings, and its outcome is
its value or its error. So each offset that `evaluateAt` takes lies between characters of the text as
it is then, those of the calls that are left included (`Script.spliceAll`), each index lies in its
list, and no count falls below zero. -/
theorem evaluation_within_bounds (settings : Settings) (formula : List Char) (grid : Grid) :
    (evaluateAt settings formula grid).run =
      some (({ settings } : Calculator).evaluate formula grid) := by
  have calls : callAt settings = CallValue.within (Registry.standard.call settings) := by
    funext name arguments
    exact callAt_eq settings name arguments
  have reduced (text : List Char) :
      Script.reduceAt (callAt settings) settings.nestingLimit settings.nestingLimit text =
        Bounded.within (({ settings } : Calculator).reduce text) := by
    rw [calls]
    exact Script.reduceAt_eq (Script.returnsFinite_call .standard settings) settings.nestingLimit text
  have bounded : evaluateAt settings formula grid =
      Bounded.within (({ settings } : Calculator).evaluate formula grid) := by
    rw [evaluateAt, Calculator.evaluate, Calculator.check]
    cases Formula.check .standard formula with
    | cons error others => rfl
    | nil =>
        dsimp only
        rw [resolveAt_eq, Bounded.within_bind]
        refine bind_congr fun resolved => ?_
        rw [reduced, Bounded.within_bind]
        exact bind_congr resultAt_eq
  rw [bounded]
  rfl

end Worksheet
