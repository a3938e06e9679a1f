import Mathlib
import Worksheet.Proofs.Script.Splice

/-!
# The calls of a reduction

A reduction makes its calls one after the other, in each pass the last one first, until all are
done or one fails. Each call is recorded with the text around it at that moment, so the records
form a chain: what one call makes of the text is what the next one finds.
-/

set_option autoImplicit false

namespace Worksheet

/-- A call as it is made: its name, the text between its parentheses, and the text around it. -/
structure Dispatch where
  before : List Char
  name : List Char
  inner : List Char
  after : List Char
deriving DecidableEq, Repr

namespace Dispatch

def text (dispatch : Dispatch) : List Char :=
  dispatch.before ++ dispatch.name ++ '(' :: dispatch.inner ++ ')' :: dispatch.after

def replaced (dispatch : Dispatch) (value : Value) : List Char :=
  dispatch.before ++ value.literal ++ dispatch.after

def outcome (call : Script.CallValue) (dispatch : Dispatch) : Except FormulaError Value :=
  call dispatch.name (Arguments.split dispatch.inner)

end Dispatch

namespace Script

/-- The calls that a pass makes, in order; the script stands between two texts. -/
def passDispatches (call : CallValue) (before after : List Char) : Script → List Dispatch
  | plain _ => []
  | group lead inner rest =>
      let later :=
        rest.passDispatches call (before ++ lead ++ '(' :: inner.chars ++ [')']) after
      match rest.pass call with
      | .error _ => later
      | .ok passed =>
          later ++
            if inner.hasCall then
              inner.passDispatches call (before ++ lead ++ ['(']) (')' :: passed.chars ++ after)
            else
              match callName? lead with
              | some name =>
                  [⟨before ++ beforeName lead name, name, inner.chars, passed.chars ++ after⟩]
              | none => []

/-- The calls that a reduction makes in at most `passes` passes. -/
def dispatches (call : CallValue) : Nat → Script → List Dispatch
  | 0, _ => []
  | passes + 1, script =>
      if script.hasCall then
        script.passDispatches call [] [] ++
          match script.pass call with
          | .error _ => []
          | .ok passed => dispatches call passes passed
      else []

variable {call : CallValue}

theorem exists_error_of_pass {script : Script} {error : FormulaError}
    (failed : script.pass call = .error error) (before after : List Char) :
    ∃ dispatch ∈ script.passDispatches call before after,
      dispatch.outcome call = .error error := by
  induction script generalizing before after with
  | plain content => cases failed
  | group lead inner rest ihInner ihRest =>
      unfold pass at failed
      unfold passDispatches
      simp only []
      cases passedRest : rest.pass call with
      | error early =>
          rw [passedRest, Outcome.error_bind] at failed
          cases failed
          exact ihRest passedRest _ _
      | ok passed =>
          rw [passedRest, Outcome.ok_bind] at failed
          -- what stands behind has passed, so the error comes from the group
          suffices found : ∃ dispatch ∈ (if inner.hasCall then
              inner.passDispatches call (before ++ lead ++ ['(']) (')' :: passed.chars ++ after)
            else
              match callName? lead with
              | some name =>
                  [⟨before ++ beforeName lead name, name, inner.chars, passed.chars ++ after⟩]
              | none => []), dispatch.outcome call = .error error by
            obtain ⟨dispatch, member, outcome⟩ := found
            exact ⟨dispatch, List.mem_append_right _ member, outcome⟩
          by_cases nested : inner.hasCall = true
          · rw [if_pos nested] at failed ⊢
            cases passedInner : inner.pass call with
            | error early =>
                rw [passedInner, Outcome.error_bind] at failed
                cases failed
                exact ihInner passedInner _ _
            | ok _ => simp [passedInner] at failed
          · rw [if_neg nested] at failed ⊢
            cases named : callName? lead with
            | none => simp [named] at failed
            | some name =>
                simp only [named] at failed ⊢
                refine ⟨_, List.mem_singleton_self _, ?_⟩
                unfold Dispatch.outcome
                cases called : call name (Arguments.split inner.chars) with
                | error early =>
                    rw [called, Outcome.error_bind] at failed
                    cases failed
                    rfl
                | ok value => simp [called] at failed

theorem exists_pass {script : Script} {before after : List Char}
    (succeed : ∀ dispatch ∈ script.passDispatches call before after,
      ∃ value, dispatch.outcome call = .ok value) :
    ∃ passed, script.pass call = .ok passed := by
  cases outcome : script.pass call with
  | ok passed => exact ⟨passed, rfl⟩
  | error error =>
      obtain ⟨dispatch, member, failed⟩ := exists_error_of_pass outcome before after
      obtain ⟨value, succeeded⟩ := succeed dispatch member
      rw [failed] at succeeded
      cases succeeded

end Script

end Worksheet
