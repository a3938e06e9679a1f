import Mathlib
import Worksheet.Formula.Calculator
import Worksheet.Proofs.Formula.Check
import Worksheet.Proofs.Reference.Resolution

/-!
# The structure of a formula is fixed by its text

Neither the contents of cells nor the results of calls can add a call to a formula, rename one, or
leave a quote or a parenthesis open. What is written in the formula is all that is ever called.
-/

set_option autoImplicit false

namespace Worksheet.Calculator

/-- For a formula that passes the check: resolving its references changes none of its calls; the
resolved text is a script, and so is every text that the reduction makes of it, call by call; and
each call takes its own name away and adds none, so no more calls are made than are written. -/
theorem structure_is_fixed_by_formula (calculator : Calculator) (grid : Grid)
    {formula resolved : List Char} (clean : calculator.check formula = [])
    (resolves : resolve grid calculator.settings (Formula.body formula) = .ok resolved) :
    callNames resolved = callNames (Formula.body formula) ∧
      ∃ script, Script.ofChars resolved = .ok script ∧
        let call := calculator.registry.call calculator.settings
        let log := script.dispatches call calculator.settings.nestingLimit
        Script.IsRun call resolved log ∧
          (∀ result, calculator.reduce resolved = .ok result →
            Script.Leads call resolved log result) ∧
          (∀ dispatch ∈ log,
            (∃ before, Script.ofChars dispatch.text = .ok before) ∧
              ∀ value, dispatch.outcome call = .ok value →
                (∃ after, Script.ofChars (dispatch.replaced value) = .ok after) ∧
                  (callNames (dispatch.replaced value)).Sublist (callNames dispatch.text) ∧
                  (callNames (dispatch.replaced value)).length <
                    (callNames dispatch.text).length) ∧
          log.length ≤ (callNames (Formula.body formula)).length := by
  have finite := Script.returnsFinite_call calculator.registry calculator.settings
  obtain ⟨names, check⟩ := resolve_keeps resolves
  obtain ⟨script, read⟩ := Script.ofChars_of_check (check.trans (Formula.check_body clean))
  obtain ⟨matched, chars⟩ := Script.ofChars_eq_ok.mp read
  have run := Script.isRun_dispatches finite calculator.settings.nestingLimit script
  rw [chars] at run
  have isCall {dispatch : Dispatch} (member : dispatch ∈ script.dispatches
      (calculator.registry.call calculator.settings) calculator.settings.nestingLimit) :
      dispatch.IsCall := Script.isCall_of_mem_dispatches finite matched member
  have reads := Script.reads_of_isRun finite run (fun _ => isCall) ⟨script, read⟩
  refine ⟨names, script, read, run, fun result success => ?_, fun dispatch member => ?_, ?_⟩
  · rw [Calculator.reduce, Script.reduceText, read, Outcome.ok_bind] at success
    obtain ⟨residue, reduction, success⟩ := Outcome.bind_eq_ok.mp success
    cases success
    rw [← chars]
    exact Script.leads_dispatches finite reduction
  · refine ⟨(reads dispatch member).1, fun value outcome => ?_⟩
    exact ⟨(reads dispatch member).2 value outcome,
      (isCall member).callNames_sublist (finite _ _ _ outcome)⟩
  · rw [← names]
    refine Script.length_le_of_isRun run (fun dispatch member value outcome => ?_)
      fun dispatch member => ?_
    · exact ((isCall member).callNames_sublist (finite _ _ _ outcome)).2
    · obtain ⟨behind, text⟩ := (isCall member).callNames_text
      rw [text]
      simp

/-- The cell holds a parenthesis and a quote. -/
theorem structure_is_fixed_by_formula_of_marks :
    callNames "SUM(\"(\"\"\")".toList = callNames (Formula.body "=SUM(A1)".toList) :=
  (structure_is_fixed_by_formula {} ⟨[[.text "(\"".toList]]⟩ (by decide)
    (by decide +kernel : resolve ⟨[[.text "(\"".toList]]⟩ {} (Formula.body "=SUM(A1)".toList) =
      .ok "SUM(\"(\"\"\")".toList)).1

end Worksheet.Calculator
