import Mathlib
import Worksheet.Command.Run
import Worksheet.Proofs.Command.Options

/-!
# One run over many formulas

A run that writes lines answers each formula by itself: settings and table are the same for all of
them, and each answer depends on its own formula alone. So a run over many formulas writes what runs
over one formula at a time write, in order, and succeeds if all of those do. A run that cannot read
its settings or its table answers no formula and fails, and so do the runs over one.
-/

set_option autoImplicit false

namespace Worksheet.Command

/-- A run over any formulas either stops in front of the first, for a reason that does not depend on
them, or answers each by itself. -/
inductive AnswersEach (outcome : List String → Outcome) : Prop
  | stops (diagnostics : List Char)
      (all : ∀ formulas, formulas ≠ [] → outcome formulas = { diagnostics, code := 1 })
  | answers (line : String → List Char) (isWell : String → Bool)
      (all : ∀ formulas, formulas ≠ [] → outcome formulas =
        { output := formulas.flatMap line, code := if formulas.all isWell then 0 else 1 })

namespace AnswersEach

variable {outcome : List String → Outcome} (each : AnswersEach outcome) {formulas : List String}
  (nonempty : formulas ≠ [])
include each nonempty

theorem output_eq :
    (outcome formulas).output = formulas.flatMap fun formula => (outcome [formula]).output := by
  cases each with
  | stops diagnostics all => simp [all, nonempty]
  | answers line isWell all => simp [all, nonempty]

theorem code_eq :
    (outcome formulas).code =
      if ∀ formula ∈ formulas, (outcome [formula]).code = 0 then 0 else 1 := by
  cases each with
  | stops diagnostics all =>
      obtain ⟨first, rest, rfl⟩ := List.exists_cons_of_ne_nil nonempty
      have fails : ¬ ∀ formula ∈ first :: rest, (outcome [formula]).code = 0 := by
        intro succeed
        have code := succeed first List.mem_cons_self
        rw [all [first] (List.cons_ne_nil _ _)] at code
        cases code
      rw [all _ nonempty, if_neg fails]
  | answers line isWell all =>
      have single (formula : String) : (outcome [formula]).code = 0 ↔ isWell formula = true := by
        rw [all [formula] (List.cons_ne_nil _ _)]
        cases good : isWell formula <;> simp [good]
      simp only [all _ nonempty, single, List.all_eq_true]

end AnswersEach

def Outcome.ofAnswers : Except RunError (List Char × Bool) → Outcome
  | .error error => { diagnostics := errorLine error.message, code := 1 }
  | .ok (content, isWell) => { output := content, code := if isWell then 0 else 1 }

theorem runOptions_eq_ofAnswers (surroundings : Surroundings) {options : Options}
    (unlisted : options.listsFunctions = false) :
    runOptions surroundings options =
      .ofAnswers (do
        let settings ← loadSettings surroundings options
        answers surroundings options { settings }) := by
  have noListing (calculator : Calculator) : listing options calculator = [] := by
    simp [listing, unlisted]
  rw [runOptions]
  cases loadSettings surroundings options with
  | error error => rfl
  | ok settings =>
      simp only [noListing, List.nil_append]
      change _ = Outcome.ofAnswers (answers surroundings options { settings })
      cases answers surroundings options { settings } <;> rfl

theorem answers_of_formulas (surroundings : Surroundings) {options : Options}
    (nonempty : options.formulas ≠ []) (calculator : Calculator) :
    answers surroundings options calculator =
      if options.checks then .ok (checkAnswers options calculator)
      else (loadTable surroundings options).map (valueAnswers options calculator) := by
  rw [answers, if_neg (by simpa using nonempty)]

section

variable {options : Options} (lines : options.json = false)
include lines

theorem checkAnswers_withFormulas (calculator : Calculator) (formulas : List String) :
    checkAnswers (options.withFormulas formulas) calculator =
      (formulas.flatMap fun formula => checkLine (calculator.check formula.toList),
        formulas.all fun formula => (calculator.check formula.toList).isEmpty) := by
  simp only [checkAnswers, Options.withFormulas, lines, Calculator.checkAll, List.map_map,
    List.flatMap_map, List.all_map, Function.comp_def, Bool.false_eq_true, if_false]

theorem valueAnswers_withFormulas (calculator : Calculator) (table : Table)
    (formulas : List String) :
    valueAnswers (options.withFormulas formulas) calculator table =
      (formulas.flatMap fun formula => valueLine (calculator.evaluate formula.toList table.grid),
        formulas.all fun formula => (calculator.evaluate formula.toList table.grid).isOk) := by
  simp only [valueAnswers, Options.withFormulas, lines, Calculator.evaluateAll, List.map_map,
    List.flatMap_map, List.all_map, Function.comp_def, Bool.false_eq_true, if_false]

/-- Options that ask for lines and for no list of functions answer each formula by itself. -/
theorem answersEach_runOptions (surroundings : Surroundings)
    (unlisted : options.listsFunctions = false) :
    AnswersEach fun formulas => runOptions surroundings (options.withFormulas formulas) := by
  have run {formulas : List String} (nonempty : formulas ≠ []) :
      runOptions surroundings (options.withFormulas formulas) =
        .ofAnswers (do
          let settings ← loadSettings surroundings options
          if options.checks then
            .ok (checkAnswers (options.withFormulas formulas) { settings })
          else
            (loadTable surroundings options).map
              (valueAnswers (options.withFormulas formulas) { settings })) := by
    have unlisted' : (options.withFormulas formulas).listsFunctions = false := unlisted
    have nonempty' : (options.withFormulas formulas).formulas ≠ [] := nonempty
    rw [runOptions_eq_ofAnswers surroundings unlisted']
    simp only [answers_of_formulas surroundings nonempty']
    rfl
  -- what fails before the first formula is asked for stops them all
  cases loaded : loadSettings surroundings options with
  | error error =>
      refine .stops (errorLine error.message) ?_
      intro formulas nonempty
      rw [run nonempty, loaded]
      rfl
  | ok settings =>
      cases checks : options.checks with
      | true =>
          refine .answers
            (fun formula => checkLine (Calculator.check { settings } formula.toList))
            (fun formula => (Calculator.check { settings } formula.toList).isEmpty) ?_
          intro formulas nonempty
          rw [run nonempty, loaded, checks]
          exact congrArg (fun answered => Outcome.ofAnswers (.ok answered))
            (checkAnswers_withFormulas lines { settings } formulas)
      | false =>
          cases tableLoaded : loadTable surroundings options with
          | error error =>
              refine .stops (errorLine error.message) ?_
              intro formulas nonempty
              rw [run nonempty, loaded, checks, tableLoaded]
              rfl
          | ok table =>
              refine .answers
                (fun formula =>
                  valueLine (Calculator.evaluate { settings } formula.toList table.grid))
                (fun formula =>
                  (Calculator.evaluate { settings } formula.toList table.grid).isOk) ?_
              intro formulas nonempty
              rw [run nonempty, loaded, checks, tableLoaded]
              exact congrArg (fun answered => Outcome.ofAnswers (.ok answered))
                (valueAnswers_withFormulas lines { settings } table formulas)

end

theorem run_of_formulas (surroundings : Surroundings) {groups : List Group}
    (nonempty : formulasOf groups ≠ []) :
    run surroundings (argumentsOf groups) =
      runOptions surroundings
        ((Options.ofGroups (fixedOf groups)).withFormulas (formulasOf groups)) := by
  have busy : (Options.ofGroups groups).isIdle = false := by
    rw [Options.ofGroups_eq groups]
    simp [Options.isIdle, Options.withFormulas, nonempty]
  rw [run, Invocation.ofArguments_groups, busy, if_neg Bool.false_ne_true, ← Options.ofGroups_eq]

theorem runs_of_single_formulas (surroundings : Surroundings) {fixed : List Group}
    {formulas : List String} {singles : List (List Group)}
    (alone : List.Forall₂ (fun formula single =>
      formulasOf single = [formula] ∧ fixedOf single = fixed) formulas singles) :
    singles.map (fun single => run surroundings (argumentsOf single)) =
      formulas.map fun formula =>
        runOptions surroundings ((Options.ofGroups fixed).withFormulas [formula]) := by
  induction alone with
  | nil => rfl
  | cons first _ ih =>
      obtain ⟨given, same⟩ := first
      have nonempty : formulasOf _ ≠ [] := given ▸ List.cons_ne_nil _ _
      rw [List.map_cons, List.map_cons, ih, run_of_formulas surroundings nonempty, given, same]

/-- A run over many formulas writes what the runs over one formula each write, one after the other,
and succeeds exactly if they all do. The runs share the other options; where the formulas stand among
them makes no difference. -/
theorem run_formula_by_formula (surroundings : Surroundings) {groups : List Group}
    {singles : List (List Group)} (nonempty : formulasOf groups ≠ [])
    (noDocument : Group.switch .json ∉ groups) (noListing : Group.switch .listsFunctions ∉ groups)
    (alone : List.Forall₂ (fun formula single =>
      formulasOf single = [formula] ∧ fixedOf single = fixedOf groups) (formulasOf groups) singles) :
    (run surroundings (argumentsOf groups)).output =
        singles.flatMap (fun single => (run surroundings (argumentsOf single)).output) ∧
      (run surroundings (argumentsOf groups)).code =
        if ∀ single ∈ singles, (run surroundings (argumentsOf single)).code = 0 then 0 else 1 := by
  have off {which : Switch} (absent : Group.switch which ∉ groups) :
      (Options.ofGroups (fixedOf groups)).isOn which = false := by
    rw [← Bool.not_eq_true, Options.isOn_ofGroups]
    exact fun member => absent (List.mem_of_mem_filter member)
  have each : AnswersEach fun formulas =>
      runOptions surroundings ((Options.ofGroups (fixedOf groups)).withFormulas formulas) :=
    answersEach_runOptions (off noDocument) surroundings (off noListing)
  have runs := runs_of_single_formulas surroundings alone
  rw [run_of_formulas surroundings nonempty]
  constructor
  · have outputs := congrArg (List.flatMap Outcome.output) runs
    rw [List.flatMap_map, List.flatMap_map] at outputs
    rw [outputs]
    exact each.output_eq nonempty
  · have codes := congrArg (fun outcomes : List Outcome => ∀ outcome ∈ outcomes, outcome.code = 0) runs
    simp only [List.forall_mem_map] at codes
    simp only [codes]
    exact each.code_eq nonempty

/-- Three formulas stand between the other options, one of them fails and one looks like an option. -/
theorem run_formula_by_formula_of_three :
    let surroundings : Surroundings :=
      { file := fun path => if path = "t.csv" then .ok "Q1,Q2\n10,20" else .error missingFile }
    let table : Group := .parameter .tablePath "--csv" (by decide) "t.csv"
    let formula (value : String) : Group := .parameter .formula "-c" (by decide) value
    let command (value : String) : Group := .parameter .formula "--command" (by decide) value
    let groups := [formula "=A1+B1", table, command "1/0", .switch .ignoresUserSettings,
      formula "--json"]
    let singles := [[table, .switch .ignoresUserSettings, formula "=A1+B1"],
      [formula "1/0", table, .switch .ignoresUserSettings],
      [table, command "--json", .switch .ignoresUserSettings]]
    (run surroundings (argumentsOf groups)).output =
        singles.flatMap (fun single => (run surroundings (argumentsOf single)).output) ∧
      (run surroundings (argumentsOf groups)).code =
        if ∀ single ∈ singles, (run surroundings (argumentsOf single)).code = 0 then 0 else 1 :=
  run_formula_by_formula _ (by decide) (by decide) (by decide)
    (.cons ⟨rfl, rfl⟩ (.cons ⟨rfl, rfl⟩ (.cons ⟨rfl, rfl⟩ .nil)))

end Worksheet.Command
