import Mathlib
import Worksheet.Proofs.Script.Beside

/-!
# Passes and the depth of calls

A pass lowers the depth of the calls of a script by at least one, whether names stand apart or not:
a literal that joins a name can only take a call away. So as many passes as the calls are deep are
enough, more make no difference, and the limit is not met.
-/

set_option autoImplicit false

namespace Worksheet.Script

variable {call : CallValue} {limit passes : Nat}

theorem callDepth_prepend_le {text : List Char} (nameless : callName? text = none)
    (script : Script) : (script.prepend text).callDepth ≤ script.callDepth := by
  cases script with
  | plain content => exact Nat.le_refl 0
  | group lead inner rest =>
      simp only [prepend, callDepth]
      rcases callName?_append nameless lead with same | ⟨gone, _⟩
      · rw [same]
      · -- the name has joined the text, and what was its call is a group
        rw [gone]
        refine max_le_max ?_ (Nat.le_refl _)
        simp

theorem callDepth_splice_le {before : List Char} (stops : StopsName before.reverse) {value : Value}
    (finite : value.IsFinite) (rest : Script) :
    (splice before value rest).callDepth ≤ rest.callDepth := by
  rcases splice_cases finite before rest with ⟨plain, spliced⟩ | ⟨inner, _, _, spliced⟩
  · rw [spliced]
    refine callDepth_prepend_le ?_ rest
    rw [callName?, List.reverse_append]
    exact plain.nameless _ stops
  · have nameless : callName? before = none := stops.nameBehind?_eq
    rw [spliced]
    simp [callDepth, nameless]

theorem callDepth_pass_le (finite : ReturnsFinite call) {script passed : Script}
    (success : script.pass call = .ok passed) : passed.callDepth ≤ script.callDepth - 1 := by
  rw [pass_eq_ok] at success
  induction success with
  | plain content => exact Nat.zero_le _
  | inward nested _ _ innerDepth restDepth =>
      have deep := (hasCall_iff _).mp nested
      simp only [callDepth]
      omega
  | kept leaf nameless _ restDepth =>
      simp [callDepth, nameless, callDepth_of_no_call leaf]
      omega
  | @replaced _ _ _ _ passedRest _ _ named called _ restDepth =>
      have spliced := callDepth_splice_le (lead_eq_of_callName? named).2 (finite _ _ _ called)
        passedRest
      simp only [callDepth]
      omega

theorem reduce_of_enough (finite : ReturnsFinite call) {script : Script}
    (enough : script.callDepth ≤ passes) {more : Nat} (le : passes ≤ more) :
    script.reduce call limit more = script.reduce call limit passes := by
  induction passes generalizing script more with
  | zero =>
      have none := script.callDepth_eq_zero_iff.mp (Nat.le_zero.mp enough)
      rw [reduce_of_no_call none, reduce_of_no_call none]
  | succ passes ih =>
      -- whatever the pass leaves nests less deep, so the passes that are left are enough for it
      obtain ⟨more, rfl⟩ := Nat.exists_eq_add_one.mpr (Nat.lt_of_lt_of_le (Nat.succ_pos passes) le)
      rw [reduce_succ_eq, reduce_succ_eq]
      cases outcome : script.pass call with
      | error error => rfl
      | ok passed =>
          have lower := callDepth_pass_le finite outcome
          exact ih (by omega) (Nat.le_of_succ_le_succ le)

theorem reduce_call_of_error (finite : ReturnsFinite call) {name : List Char} {inner : Script}
    (enough : inner.callDepth ≤ passes)
    {error : FormulaError} (failed : inner.reduce call limit passes = .error error) :
    (group name inner (plain [])).reduce call limit (passes + 1) = .error error := by
  induction passes generalizing inner with
  | zero =>
      have none := inner.callDepth_eq_zero_iff.mp (Nat.le_zero.mp enough)
      rw [reduce_of_no_call none] at failed
      cases failed
  | succ passes ih =>
      have nested : inner.hasCall = true := by
        by_contra none
        rw [reduce_of_no_call (by simpa using none)] at failed
        cases failed
      rw [reduce_succ_eq] at failed ⊢
      rw [pass, pass, Outcome.ok_bind, if_pos nested]
      cases outcome : inner.pass call with
      | error reason =>
          rw [outcome] at failed
          exact failed
      | ok passed =>
          rw [outcome] at failed
          have lower := callDepth_pass_le finite outcome
          exact ih (by omega) failed

theorem reduce_call_eq (finite : ReturnsFinite call) {name : List Char}
    (named : callName? name = some name) {inner : Script} (enough : inner.callDepth ≤ passes) :
    (group name inner (plain [])).reduce call limit (passes + 1) =
      inner.reduce call limit passes >>= fun residue =>
        (splice [] · (plain [])) <$> call name (Arguments.split residue.chars) := by
  cases outcome : inner.reduce call limit passes with
  | error error => exact reduce_call_of_error finite enough outcome
  | ok residue => exact reduce_of_call finite named outcome

end Worksheet.Script
