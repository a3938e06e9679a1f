import Mathlib
import Worksheet.Proofs.Formula.Failure
import Worksheet.Proofs.Reference.Strictness

/-!
# Evaluating with strict references

Strict references only ever refuse: a formula that they do not refuse for a reference has the same
outcome whether they are on or off. Nothing but resolving complains about a reference, so a formula
that passes the check is refused for one exactly when a reference of its body dangles.

The functions of a registry may be any that have nothing to do with references. Those of the library
are, under whatever names they are registered.
-/

set_option autoImplicit false

namespace Worksheet

def Body.IgnoresStrictness : Body → Prop
  | aggregate run => ∀ numbers settings strict,
      run numbers { settings with strictReferences := strict } = run numbers settings
  | scalar run => ∀ values settings strict,
      run values { settings with strictReferences := strict } = run values settings
  | lazy run => ∀ arguments value settings strict,
      run arguments value { settings with strictReferences := strict } = run arguments value settings

/-- The functions of a registry have nothing to do with references: none complains about one
itself, and none asks whether references to nothing are refused. -/
structure Registry.IgnoresReferences (registry : Registry) : Prop where
  passesOn : ∀ token, registry.PassesOn (.malformedReference token)
  ignoresStrictness : ∀ function ∈ registry.functions, function.body.IgnoresStrictness

theorem Library.ignoresStrictness_of_mem : ∀ function ∈ functions, function.body.IgnoresStrictness := by
  simp only [functions, List.forall_mem_cons]
  refine ⟨?sum, ?average, ?least, ?greatest, ?count, ?median, ?product, ?round, ?absolute, ?power,
    ?squareRoot, ?choose, ?concat, List.forall_mem_nil _⟩
  case choose => exact fun _ _ _ _ => rfl
  case concat => exact fun _ _ _ _ => rfl
  all_goals exact fun _ _ _ => rfl

theorem Registry.ignoresReferences_of_library {registry : Registry}
    (bodies : ∀ function ∈ registry.functions,
      ∃ other ∈ Library.functions, function.body = other.body) : registry.IgnoresReferences where
  passesOn token function member := by
    obtain ⟨other, inLibrary, same⟩ := bodies function member
    have notInvalid (fault : Fault) :
        FormulaError.malformedReference token ≠ .invalidExpression fault := nofun
    rw [same]
    exact Library.passesOn_of_mem notInvalid other inLibrary
  ignoresStrictness function member := by
    obtain ⟨other, inLibrary, same⟩ := bodies function member
    rw [same]
    exact Library.ignoresStrictness_of_mem other inLibrary

theorem Body.apply_strictness {body : Body} (ignores : body.IgnoresStrictness) (settings : Settings)
    (strict : Bool) (arguments : List (List Char)) :
    body.apply { settings with strictReferences := strict } arguments =
      body.apply settings arguments := by
  cases body with
  | aggregate run => simp only [Body.apply, ignores _ settings strict]
  | scalar run => simp only [Body.apply, ignores _ settings strict]
  | lazy run => exact ignores arguments argumentValue settings strict

theorem Registry.call_strictness {registry : Registry} (ignores : registry.IgnoresReferences)
    (settings : Settings) (strict : Bool) :
    registry.call { settings with strictReferences := strict } = registry.call settings := by
  funext name arguments
  unfold Registry.call
  cases found : registry.get? (capitals name) with
  | none => simp only [found]
  | some function =>
      have member : function ∈ registry.functions := List.mem_of_find?_eq_some found
      simp only [found, Body.apply_strictness (ignores.ignoresStrictness function member)]

namespace Calculator

section Complaints

variable {calculator : Calculator} {token : List Char}

theorem malformedReference_notMem_check (formula : List Char) :
    .malformedReference token ∉ calculator.check formula := by
  unfold Calculator.check Formula.check
  dsimp only
  split
  · simp
  · simp only [List.mem_append, List.mem_map, reduceCtorEq, and_false, exists_false, or_false]
    split <;> split <;> simp

theorem valueOf_ne_malformedReference (text : List Char) :
    Expression.valueOf text ≠ .error (.malformedReference token) := by
  intro failed
  rcases Expression.isReading_of_valueOf failed with other | reading
  · cases other
  · cases reading

theorem reduce_ne_malformedReference
    (passes : calculator.registry.PassesOn (.malformedReference token)) (text : List Char) :
    calculator.reduce text ≠ .error (.malformedReference token) := by
  intro failed
  rcases Outcome.bind_eq_error.mp failed with failed | ⟨script, _, failed⟩
  · rcases Outcome.bind_eq_error.mp failed with failed | ⟨_, _, failed⟩
    · rcases Script.check_eq_error failed with ⟨other, _⟩ | ⟨other, _⟩ <;> cases other
    · cases failed
  rcases Outcome.bind_eq_error.mp failed with failed | ⟨_, _, failed⟩
  · rcases Script.reduce_eq_error failed with other | ⟨dispatch, _, outcome⟩
    · cases other
    rcases Registry.call_eq_error passes outcome with
      ⟨other, _⟩ | ⟨_, other⟩ | ⟨argument, _, failed⟩
    · cases other
    · cases other
    · exact valueOf_ne_malformedReference argument failed
  · cases failed

theorem result_ne_malformedReference (text : List Char) :
    result text ≠ .error (.malformedReference token) := by
  intro failed
  rcases result_eq_error failed with ⟨_, _, other⟩ | failed
  · cases other
  · exact valueOf_ne_malformedReference _ failed

theorem evaluate_eq_malformedReference_iff
    (passes : calculator.registry.PassesOn (.malformedReference token)) (formula : List Char)
    (grid : Grid) :
    calculator.evaluate formula grid = .error (.malformedReference token) ↔
      calculator.check formula = [] ∧
        resolve grid calculator.settings (Formula.body formula) =
          .error (.malformedReference token) := by
  unfold Calculator.evaluate
  cases complaints : calculator.check formula with
  | cons first more =>
      have other : first ≠ .malformedReference token := by
        rintro rfl
        have listed : .malformedReference token ∈ calculator.check formula :=
          complaints ▸ List.mem_cons_self
        exact malformedReference_notMem_check formula listed
      simp [other]
  | nil =>
      simp only [true_and]
      constructor
      · intro failed
        rcases Outcome.bind_eq_error.mp failed with failed | ⟨resolved, _, failed⟩
        · exact failed
        rcases Outcome.bind_eq_error.mp failed with failed | ⟨reduced, _, failed⟩
        · exact absurd failed (reduce_ne_malformedReference passes resolved)
        · exact absurd failed (result_ne_malformedReference reduced)
      · intro failed
        rw [failed]
        rfl

end Complaints

def strictly (strict : Bool) (calculator : Calculator) : Calculator where
  settings := { calculator.settings with strictReferences := strict }
  registry := calculator.registry

/-- Strict references only ever refuse. Where they complain about no reference, the outcome is the
one without them, and without them there is no complaint about a reference. A formula that passes
the check they refuse exactly when a reference of its body dangles, and they name the leftmost one,
in capitals. The hypothesis is a condition on functions that are registered from outside: those of
the library meet it under any names, by `Registry.ignoresReferences_of_library`. -/
theorem strictness_only_refuses (calculator : Calculator)
    (ignores : calculator.registry.IgnoresReferences) (formula : List Char) (grid : Grid) :
    ((∀ token,
        (calculator.strictly true).evaluate formula grid ≠ .error (.malformedReference token)) →
      (calculator.strictly false).evaluate formula grid =
        (calculator.strictly true).evaluate formula grid) ∧
    (∀ token,
      (calculator.strictly false).evaluate formula grid ≠ .error (.malformedReference token)) ∧
    (calculator.check formula = [] → ∀ name,
      (calculator.strictly true).evaluate formula grid = .error (.malformedReference name) ↔
        ∃ before piece after,
          DanglesFirst grid {} (Piece.ofChars (Formula.body formula)) before piece after ∧
            name = capitals piece.chars) := by
  have complains (strict : Bool) (name : List Char) :
      (calculator.strictly strict).evaluate formula grid = .error (.malformedReference name) ↔
        calculator.check formula = [] ∧
          resolve grid (calculator.strictly strict).settings (Formula.body formula) =
            .error (.malformedReference name) :=
    @evaluate_eq_malformedReference_iff (calculator.strictly strict) name (ignores.passesOn name)
      formula grid
  refine ⟨fun accepted => ?same, fun name refused => ?lenient, fun clean name => ?strict⟩
  case lenient =>
    obtain ⟨_, failed⟩ := (complains false name).mp refused
    obtain ⟨resolved, read⟩ := @exists_of_resolve_lenient grid (calculator.strictly false).settings
      rfl (Formula.body formula)
    rw [read] at failed
    cases failed
  case strict =>
    rw [complains, resolve_strict_eq_error_iff rfl]
    exact and_iff_right clean
  case same =>
    -- calls do not see how strict the settings are, so only the references can differ
    have strictCall : (calculator.strictly true).reduce = calculator.reduce := by
      unfold Calculator.reduce
      simp only [strictly, Registry.call_strictness ignores]
    have lenientCall : (calculator.strictly false).reduce = calculator.reduce := by
      unfold Calculator.reduce
      simp only [strictly, Registry.call_strictness ignores]
    have check (strict : Bool) : (calculator.strictly strict).check formula = calculator.check formula :=
      rfl
    unfold Calculator.evaluate at accepted ⊢
    rw [strictCall, check] at accepted ⊢
    rw [lenientCall, check]
    cases complaints : calculator.check formula with
    | cons first more => rfl
    | nil =>
        rw [complaints] at accepted
        cases read : resolve grid (calculator.strictly true).settings (Formula.body formula) with
        | error error =>
            obtain ⟨token, rfl⟩ := resolve_eq_error read
            exact absurd (by rw [read]; rfl) (accepted token)
        | ok resolved =>
            have same := @resolve_of_strict grid (calculator.strictly true).settings rfl _ _ read
            simp only [same]

/-- The reference in a literal and the range that is read as text do not count. -/
theorem strictness_only_refuses_of_absent_cell :
    Registry.standard.IgnoresReferences ∧
      Calculator.check {} "=CONCAT(\"Z9\",C7:C8,sum(a9,B9:B9))".toList = [] ∧
      ∃ before piece after,
        DanglesFirst {} {} (Piece.ofChars (Formula.body "=CONCAT(\"Z9\",C7:C8,sum(a9,B9:B9))".toList))
          before piece after ∧ "A9".toList = capitals piece.chars := by
  have ignores : Registry.standard.IgnoresReferences :=
    Registry.ignoresReferences_of_library fun function member =>
      ⟨function, Registry.mem_library member, rfl⟩
  have clean : Calculator.check {} "=CONCAT(\"Z9\",C7:C8,sum(a9,B9:B9))".toList = [] := by
    decide +kernel
  exact ⟨ignores, clean, ((strictness_only_refuses {} ignores _ {}).2.2 clean _).mp (by
    decide +kernel)⟩

end Calculator

end Worksheet
