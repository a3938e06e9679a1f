import Mathlib
import Worksheet.Formula.Calculator
import Worksheet.Proofs.Script.Calls
import Worksheet.Proofs.Script.Collapse

/-!
# Reductions

A reduction of at most so many passes succeeds exactly when the calls nest no deeper than that and
the script collapses, and both give the same text. The text has no call left. When the calls nest
deeper and none of those made fails, the limit is what the error names.
-/

set_option autoImplicit false

namespace Worksheet

namespace Script

section Reduce

variable {call : CallValue} {limit passes : Nat} (finite : ReturnsFinite call)

theorem reduce_succ {script residue : Script}
    (reduced : script.reduce call limit passes = .ok residue) :
    script.reduce call limit (passes + 1) = .ok residue := by
  rw [reduce_eq_ok] at reduced
  induction reduced with
  | done none passes => exact reduce_of_no_call none _
  | step calls success _ ih => exact reduce_of_pass success calls ih

theorem reduce_mono {script residue : Script} {more : Nat} (le : passes ≤ more)
    (reduced : script.reduce call limit passes = .ok residue) :
    script.reduce call limit more = .ok residue := by
  induction le with
  | refl => exact reduced
  | step _ ih => exact reduce_succ ih

include finite

omit finite in
theorem reduce_iff_collapse_of_no_call {script : Script} (none : script.hasCall = false)
    (passes : Nat) (text : List Char) :
    (∃ residue, script.reduce call limit passes = .ok residue ∧ residue.chars = text) ↔
      script.callDepth ≤ passes ∧ script.collapse call = .ok text := by
  simp only [reduce_of_no_call none, collapse_of_no_call none, callDepth_of_no_call none,
    Except.ok.injEq, exists_eq_left', Nat.zero_le, true_and]

/-- Passes reach the collapse exactly when there are as many as the calls are deep. -/
theorem reduce_iff_collapse {script : Script} (apart : script.NamesApart false)
    (text : List Char) :
    (∃ residue, script.reduce call limit passes = .ok residue ∧ residue.chars = text) ↔
      script.callDepth ≤ passes ∧ script.collapse call = .ok text := by
  induction passes generalizing script with
  | zero =>
      cases calls : script.hasCall with
      | false => exact reduce_iff_collapse_of_no_call calls 0 text
      | true =>
          have deep := (hasCall_iff script).mp calls
          simp only [reduce, if_pos calls, reduceCtorEq, false_and, exists_false, false_iff, not_and]
          omega
  | succ passes ih =>
      cases calls : script.hasCall with
      | false => exact reduce_iff_collapse_of_no_call calls (passes + 1) text
      | true =>
          cases outcome : script.pass call with
          | error error =>
              simp only [reduce, if_pos calls, outcome, Outcome.error_bind, reduceCtorEq, false_and,
                exists_false, false_iff, not_and]
              intro _ collapsed
              obtain ⟨passed, success⟩ := exists_pass_of_collapse collapsed
              rw [outcome] at success
              cases success
          | ok passed =>
              obtain ⟨collapse, depth, apart'⟩ := pass_spec finite apart outcome
              simp only [reduce, if_pos calls, outcome, Outcome.ok_bind]
              rw [ih apart', collapse, depth, Nat.sub_le_iff_le_add]

theorem reduce_of_deep {script : Script} (apart : script.NamesApart false)
    (deep : passes < script.callDepth)
    (succeed : ∀ dispatch ∈ script.dispatches call passes,
      ∃ value, dispatch.outcome call = .ok value) :
    script.reduce call limit passes = .error (.tooComplex limit) := by
  induction passes generalizing script with
  | zero => rw [reduce, if_pos ((hasCall_iff script).mpr deep)]
  | succ passes ih =>
      have calls : script.hasCall = true := (hasCall_iff script).mpr (by omega)
      rw [dispatches, if_pos calls] at succeed
      obtain ⟨passed, success⟩ :=
        exists_pass fun dispatch member => succeed dispatch (List.mem_append_left _ member)
      obtain ⟨_, depth, apart'⟩ := pass_spec finite apart success
      rw [reduce, if_pos calls, success, Outcome.ok_bind]
      refine ih apart' (by omega) fun dispatch member => succeed dispatch ?_
      rw [success]
      exact List.mem_append_right _ member

theorem reduce_of_call {name : List Char} (named : callName? name = some name)
    {inner residue : Script} (reduced : inner.reduce call limit passes = .ok residue) :
    (group name inner (plain [])).reduce call limit (passes + 1) =
      (splice [] · (plain [])) <$> call name (Arguments.split residue.chars) := by
  have nested (inner : Script) : (group name inner (plain [])).hasCall = true := by
    simp [hasCall, named]
  have front : beforeName name name = [] := by simp [beforeName]
  rw [reduce_eq_ok] at reduced
  induction reduced with
  | @done script none passes =>
      rw [reduce, if_pos (nested script)]
      simp only [pass, Outcome.ok_bind, none, Bool.false_eq_true, if_false, named, front]
      cases called : call name (Arguments.split script.chars) with
      | error error => rfl
      | ok value =>
          have done : (splice [] value (plain [])).hasCall = false := by
            rcases splice_cases (finite _ _ _ called) [] (plain []) with
              ⟨_, spliced⟩ | ⟨_, _, _, spliced⟩ <;> (rw [spliced]; rfl)
          exact reduce_of_no_call done passes
  | @step passes script _ _ calls success _ ih =>
      rw [reduce, if_pos (nested script)]
      simp only [pass, Outcome.ok_bind, calls, if_true, success, Outcome.pure_eq]
      exact ih

end Reduce

end Script

theorem Calculator.reduce_eq_ok (calculator : Calculator) {text : List Char} {script : Script}
    (read : Script.ofChars text = .ok script) (result : List Char) :
    calculator.reduce text = .ok result ↔
      ∃ residue, script.reduce (calculator.registry.call calculator.settings)
        calculator.settings.nestingLimit calculator.settings.nestingLimit = .ok residue ∧
          residue.chars = result := by
  rw [Calculator.reduce, Script.reduceText, read, Outcome.ok_bind, Outcome.bind_eq_ok]
  simp

/-- A call whose arguments are reduced one pass before the limit is reduced to the literal of its
value. -/
theorem Calculator.reduce_of_call (calculator : Calculator) {name : List Char}
    (named : Script.callName? name = some name) {inner residue : Script} {passes : Nat}
    (matched : inner.Matched false) (sooner : passes < calculator.settings.nestingLimit)
    (reduced : inner.reduce (calculator.registry.call calculator.settings)
      calculator.settings.nestingLimit passes = .ok residue) :
    calculator.reduce (name ++ '(' :: (inner.chars ++ [')'])) =
      Value.literal <$>
        calculator.registry.call calculator.settings name (Arguments.split residue.chars) := by
  have finite := Script.returnsFinite_call calculator.registry calculator.settings
  have whole := Script.ofChars_call named (Script.ofChars_eq_ok.mpr ⟨matched, rfl⟩)
  have step := Script.reduce_of_call finite named
    (Script.reduce_mono (Nat.le_sub_one_of_lt sooner) reduced)
  rw [Nat.sub_add_cancel (Nat.one_le_of_lt sooner)] at step
  rw [Calculator.reduce, Script.reduceText, whole, Outcome.ok_bind, step]
  cases called : calculator.registry.call calculator.settings name (Arguments.split residue.chars) with
  | error error => rfl
  | ok value => simp [Script.chars_splice_alone (finite _ _ _ called)]

theorem Calculator.reduce_call (calculator : Calculator) {name inner : List Char}
    (named : nameBehind? name.reverse = some name) (operand : IsOperandText inner)
    (positive : 0 < calculator.settings.nestingLimit) :
    calculator.reduce (name ++ '(' :: (inner ++ [')'])) =
      Value.literal <$>
        calculator.registry.call calculator.settings name (Arguments.split inner) := by
  obtain ⟨script, matched, rfl, none⟩ := operand.exists_script
  exact calculator.reduce_of_call named matched positive (Script.reduce_of_no_call none 0)

/-- Reducing a text is collapsing its script, within the limit of nesting and no further: passes
succeed with a text exactly when the calls nest no deeper than the limit and the recursion gives
this text, which then has no call left; and when they nest deeper and every call made succeeds,
the error is that of the limit. -/
theorem Calculator.reduce_eq_collapse_within_limit (calculator : Calculator) {text : List Char}
    {script : Script} (read : Script.ofChars text = .ok script)
    (apart : script.NamesApart false) :
    (∀ result, calculator.reduce text = .ok result ↔
        script.callDepth ≤ calculator.settings.nestingLimit ∧
          script.collapse (calculator.registry.call calculator.settings) = .ok result) ∧
      (∀ result, calculator.reduce text = .ok result →
        ∃ residue, Script.ofChars result = .ok residue ∧ residue.hasCall = false) ∧
      (calculator.settings.nestingLimit < script.callDepth →
        (∀ dispatch ∈ script.dispatches (calculator.registry.call calculator.settings)
            calculator.settings.nestingLimit,
          ∃ value, dispatch.outcome (calculator.registry.call calculator.settings) = .ok value) →
        calculator.reduce text = .error (.tooComplex calculator.settings.nestingLimit)) := by
  have finite := Script.returnsFinite_call calculator.registry calculator.settings
  have reduced := calculator.reduce_eq_ok read
  refine ⟨fun result => ?_, fun result success => ?_, fun deep succeed => ?_⟩
  · rw [reduced, Script.reduce_iff_collapse finite apart]
  · obtain ⟨residue, reduction, rfl⟩ := (reduced result).mp success
    have matched := Script.matched_reduce finite (Script.ofChars_eq_ok.mp read).1 reduction
    exact ⟨residue, Script.ofChars_eq_ok.mpr ⟨matched, rfl⟩, Script.hasCall_of_reduce reduction⟩
  · rw [Calculator.reduce, Script.reduceText, read, Outcome.ok_bind,
      Script.reduce_of_deep finite apart deep succeed]
    rfl

theorem Calculator.reduce_eq_collapse_within_limit_of_sums :
    let script := Script.group "ABS".toList (.group "SUM".toList (.plain "1,2".toList) (.plain []))
      (.group "+SUM".toList (.plain "3".toList) (.plain []))
    ∀ result, Calculator.reduce {} "ABS(SUM(1,2))+SUM(3)".toList = .ok result ↔
      script.callDepth ≤ 32 ∧ script.collapse (Registry.standard.call {}) = .ok result :=
  (Calculator.reduce_eq_collapse_within_limit {} rfl (by decide)).1

end Worksheet
