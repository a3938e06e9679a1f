import Mathlib
import Worksheet.Proofs.Expression.Case
import Worksheet.Proofs.Function.Errors
import Worksheet.Reference.Resolution

/-!
# Letter case in calls

A function is found by its name in either case. Of their arguments the functions of the library,
`CONCAT` apart, know only which are missing and what the others come to, and letter case outside
literals has no part in that.
-/

set_option autoImplicit false

namespace Worksheet

theorem isMissing_outerCapitals (argument : List Char) :
    isMissing (outerCapitals false argument) = isMissing argument := by
  have empty : outerCapitals false argument = [] ↔ argument = [] := outerCapitals_eq_iff (by simp)
  have emptyRange :
      outerCapitals false argument = emptyRangeLiteral ↔ argument = emptyRangeLiteral :=
    outerCapitals_eq_iff (by simp [emptyRangeLiteral])
  simp only [isMissing, empty, emptyRange]

theorem argumentValue_outerCapitals (argument : List Char) :
    argumentValue (outerCapitals false argument) = argumentValue argument := by
  rw [argumentValue, argumentValue, isMissing_outerCapitals, Expression.valueOf_outerCapitals]

theorem Body.apply_outerCapitals {body : Body} (eager : ∀ run, body ≠ .lazy run)
    (settings : Settings) (arguments : List (List Char)) :
    body.apply settings (arguments.map (outerCapitals false)) = body.apply settings arguments := by
  have missing : isMissing ∘ outerCapitals false = isMissing := funext isMissing_outerCapitals
  have valueOf : Expression.valueOf ∘ outerCapitals false = Expression.valueOf :=
    funext Expression.valueOf_outerCapitals
  have value : argumentValue ∘ outerCapitals false = argumentValue :=
    funext argumentValue_outerCapitals
  cases body with
  | aggregate run =>
      have kept :
          (arguments.map (outerCapitals false)).filter (fun argument => !isMissing argument) =
            (arguments.filter fun argument => !isMissing argument).map (outerCapitals false) := by
        rw [List.filter_map]
        simp only [Function.comp_def, isMissing_outerCapitals]
      simp only [Body.apply, kept, List.mapM_map, valueOf]
  | scalar run => simp only [Body.apply, List.mapM_map, value]
  | lazy run => exact absurd rfl (eager run)

theorem Library.choose_outerCapitals (arguments : List (List Char)) :
    choose (arguments.map (outerCapitals false)) argumentValue =
      choose arguments argumentValue := by
  have place (index : Nat) : argumentValue ((arguments.map (outerCapitals false)).getD index []) =
      argumentValue (arguments.getD index []) :=
    (congrArg argumentValue (List.getD_map arguments [] (outerCapitals false))).trans
      (argumentValue_outerCapitals _)
  simp only [choose, place]

theorem Registry.call_standard_outerCapitals (settings : Settings) {name other : List Char}
    (same : capitals other = capitals name) (notText : capitals name ≠ textFunction)
    (arguments : List (List Char)) :
    standard.call settings other (arguments.map (outerCapitals false)) =
      standard.call settings name arguments := by
  unfold Registry.call
  rw [same, List.length_map]
  cases registered : standard.get? (capitals name) with
  | none => simp only [registered]
  | some function =>
      obtain ⟨member, key⟩ := mem_library_of_get? registered
      have applied : function.body.apply settings (arguments.map (outerCapitals false)) =
          function.body.apply settings arguments := by
        rcases Library.eager_of_mem member with eager | ⟨_, _, body⟩ | isText
        · exact Body.apply_outerCapitals eager settings arguments
        · rw [body]
          exact Library.choose_outerCapitals arguments
        · exact absurd (key ▸ isText) notText
      simp only [registered, applied]

end Worksheet
