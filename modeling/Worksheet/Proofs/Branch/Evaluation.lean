import Mathlib
import Worksheet.Proofs.Branch.Argument
import Worksheet.Proofs.Formula.Naming

/-!
# Choosing a branch

`IF` takes the value of its condition and of one branch, and never that of the other. But its
arguments are texts in which all references have been resolved and all calls have been made before
`IF` is, whichever branch they stand in. So the branch that is left out does not matter as long as
its references resolve and its calls succeed: what it comes to is not looked at.
-/

set_option autoImplicit false

namespace Worksheet

variable {settings : Settings} {grid : Grid}

theorem Registry.call_branchFunction (settings : Settings) (condition first second : List Char) :
    Registry.standard.call settings Library.branchFunction [condition, first, second] = (do
      let chosen ← argumentValue condition
      let value ← argumentValue (if chosen.isTrue then first else second)
      Expression.requireFinite
        (.invalidExpression (.nonFiniteResult Library.branchFunction)) value) := by
  have canonical : capitals Library.branchFunction = Library.branchFunction := rfl
  have found : Registry.standard.get? Library.branchFunction =
      some ⟨"IF".toList, .between 2 3, .lazy fun arguments value _ => Library.choose arguments value,
        "Choose a value by condition; nonzero is true"⟩ := rfl
  have admitted : (Arity.between 2 3).admits [condition, first, second].length = true := rfl
  have chooses : Library.choose [condition, first, second] argumentValue = (do
      let chosen ← argumentValue condition
      argumentValue (if chosen.isTrue then first else second)) := by
    simp only [Library.choose, List.getD_cons_zero, List.getD_cons_succ]
    cases argumentValue condition with
    | error error => rfl
    | ok chosen => exact (apply_ite argumentValue _ first second).symm
  rw [Registry.call, canonical]
  simp only [found, admitted, if_true, Body.apply, chooses]
  cases argumentValue condition <;> rfl

theorem Arguments.split_three {first second third : List Char}
    (checkedFirst : Script.check 0 false first = .ok ()) (aloneFirst : commas first = 0)
    (checkedSecond : Script.check 0 false second = .ok ()) (aloneSecond : commas second = 0)
    (aloneThird : commas third = 0) :
    split (first ++ ',' :: (second ++ ',' :: third)) = [trim first, trim second, trim third] := by
  have comma : isBlank ',' = false := by decide
  have visible : (trim (first ++ ',' :: (second ++ ',' :: third))).isEmpty = false := by
    rw [isEmpty_trim, List.all_append, List.all_cons, comma, Bool.false_and, Bool.and_false]
  rw [split, visible, parts_append_comma checkedFirst, parts_append_comma checkedSecond,
    parts_of_commas aloneFirst, parts_of_commas aloneSecond, parts_of_commas aloneThird]
  rfl

def choiceArguments (condition first second : List Char) : List Char :=
  condition ++ ',' :: (first ++ ',' :: second)

def choiceFormula (condition first second : List Char) : List Char :=
  '=' :: (Library.branchFunction ++ '(' :: (choiceArguments condition first second ++ [')']))

/-- A text that is one argument: its parentheses and quotes match, and outside of them there is
neither a comma nor a range. -/
structure IsOneArgument (text : List Char) : Prop where
  checked : Script.check 0 false text = .ok ()
  alone : Arguments.parts 0 false text = [text]
  rangeless : Piece.topRanges 0 false (Piece.ofChars text) = []

/-- A formula that chooses, passes the check and nests its calls no deeper than the limit. -/
structure IsChoice (settings : Settings) (condition first second : List Char) : Prop where
  single : ∀ text ∈ [condition, first, second], IsOneArgument text
  clean : Calculator.check ⟨settings, .standard⟩ (choiceFormula condition first second) = []
  nests : ∀ script,
    Script.ofChars (Formula.body (choiceFormula condition first second)) = .ok script →
      script.callDepth ≤ settings.nestingLimit

instance (text : List Char) : Decidable (IsOneArgument text) :=
  decidable_of_iff (Script.check 0 false text = .ok () ∧ Arguments.parts 0 false text = [text] ∧
      Piece.topRanges 0 false (Piece.ofChars text) = [])
    ⟨fun ⟨checked, alone, rangeless⟩ => ⟨checked, alone, rangeless⟩,
      fun single => ⟨single.checked, single.alone, single.rangeless⟩⟩

instance (text : List Char) (limit : Nat) :
    Decidable (∀ script, Script.ofChars text = .ok script → script.callDepth ≤ limit) :=
  match Script.ofChars text with
  | .ok script => decidable_of_iff (script.callDepth ≤ limit)
      ⟨fun nests _ same => Except.ok.inj same ▸ nests, fun nests => nests script rfl⟩
  | .error _ => .isTrue nofun

instance (settings : Settings) (condition first second : List Char) :
    Decidable (IsChoice settings condition first second) :=
  decidable_of_iff
    ((∀ text ∈ [condition, first, second], IsOneArgument text) ∧
      Calculator.check ⟨settings, .standard⟩ (choiceFormula condition first second) = [] ∧
      ∀ script, Script.ofChars (Formula.body (choiceFormula condition first second)) = .ok script →
        script.callDepth ≤ settings.nestingLimit)
    ⟨fun ⟨single, clean, nests⟩ => ⟨single, clean, nests⟩,
      fun choice => ⟨choice.single, choice.clean, choice.nests⟩⟩

def Calculator.argument (calculator : Calculator) (grid : Grid) (text : List Char) :
    Except FormulaError Value := do
  argumentValue (trim (← calculator.rewrite grid text))

theorem Calculator.evaluate_of_clean {calculator : Calculator} {formula : List Char}
    (clean : calculator.check formula = []) (grid : Grid) :
    calculator.evaluate formula grid =
      calculator.rewrite grid (Formula.body formula) >>= Calculator.result := by
  rw [Calculator.evaluate, clean, Calculator.rewrite]
  cases resolve grid calculator.settings (Formula.body formula) <;> rfl

theorem IsOneArgument.rewriteWithin {calculator : Calculator} {text result : List Char}
    (single : IsOneArgument text) {passes : Nat}
    (rewrites : calculator.rewriteWithin grid passes text = .ok result) :
    Script.check 0 false result = .ok () ∧ Arguments.commas result = 0 := by
  have finite := Script.returnsFinite_call calculator.registry calculator.settings
  have acts := (actsOnArguments_resolve grid calculator.settings).reduces finite
    calculator.settings.nestingLimit passes
  have same := Calculator.rewriteWithin_eq_ok.mp rewrites
  have none : surplus grid text = 0 := by
    rw [surplus, Piece.surplus, single.rangeless]
    rfl
  refine ⟨acts.checked single.checked same, ?_⟩
  rw [Arguments.commas, acts.length_parts single.checked same, single.alone, none]
  rfl

namespace IsChoice

variable {condition first second : List Char}

theorem body_choiceFormula (condition first second : List Char) :
    Formula.body (choiceFormula condition first second) =
      Library.branchFunction ++ '(' :: (choiceArguments condition first second ++ [')']) :=
  Formula.body_call (by rfl : Script.callName? Library.branchFunction = some Library.branchFunction) _

theorem exists_scripts (choice : IsChoice settings condition first second) :
    ∃ passes, settings.nestingLimit = passes + 1 ∧
      ∃ conditionScript firstScript secondScript : Script,
        Script.ofChars condition = .ok conditionScript ∧ Script.ofChars first = .ok firstScript ∧
        Script.ofChars second = .ok secondScript ∧ conditionScript.callDepth ≤ passes ∧
        firstScript.callDepth ≤ passes ∧ secondScript.callDepth ≤ passes := by
  have read (text : List Char) (member : text ∈ [condition, first, second]) :=
    Script.ofChars_of_check (choice.single text member).checked
  obtain ⟨conditionScript, conditionRead⟩ := read condition (by simp)
  obtain ⟨firstScript, firstRead⟩ := read first (by simp)
  obtain ⟨secondScript, secondRead⟩ := read second (by simp)
  have arguments := Script.ofChars_comma conditionRead (Script.ofChars_comma firstRead secondRead)
  have named : Script.callName? Library.branchFunction = some Library.branchFunction := rfl
  have whole : Script.ofChars (Formula.body (choiceFormula condition first second)) =
      .ok (.group Library.branchFunction
        (conditionScript.beside (firstScript.beside secondScript)) (.plain [])) := by
    rw [body_choiceFormula]
    exact Script.ofChars_call named arguments
  have deep := choice.nests _ whole
  rw [Script.callDepth, named, Script.callDepth_beside, Script.callDepth_beside] at deep
  simp only [Option.isSome_some, if_true, Script.callDepth] at deep
  exact ⟨settings.nestingLimit - 1, by omega, conditionScript, firstScript, secondScript,
    conditionRead, firstRead, secondRead, by omega, by omega, by omega⟩

theorem call_of_arguments {passes : Nat} {condition' first' second' : List Char}
    (choice : IsChoice settings condition first second)
    (conditionSame : Calculator.rewriteWithin ⟨settings, .standard⟩ grid passes condition =
      .ok condition')
    (firstSame : Calculator.rewriteWithin ⟨settings, .standard⟩ grid passes first = .ok first')
    (secondSame : Calculator.rewriteWithin ⟨settings, .standard⟩ grid passes second = .ok second') :
    Registry.standard.call settings Library.branchFunction
        (Arguments.split (choiceArguments condition' first' second')) = (do
      let chosen ← argumentValue (trim condition')
      let value ← argumentValue (trim (if chosen.isTrue then first' else second'))
      Expression.requireFinite
        (.invalidExpression (.nonFiniteResult Library.branchFunction)) value) := by
  have conditionOne := (choice.single condition (by simp)).rewriteWithin conditionSame
  have firstOne := (choice.single first (by simp)).rewriteWithin firstSame
  have secondOne := (choice.single second (by simp)).rewriteWithin secondSame
  rw [choiceArguments, Arguments.split_three conditionOne.1 conditionOne.2 firstOne.1 firstOne.2
    secondOne.2, Registry.call_branchFunction]
  simp only [apply_ite trim]

/-- A choice is its call on what its arguments come to, in passes that are enough for each. -/
theorem exists_evaluate_eq (choice : IsChoice settings condition first second) (grid : Grid) :
    ∃ passes,
      (∀ text ∈ [condition, first, second], Calculator.rewrite ⟨settings, .standard⟩ grid text =
        Calculator.rewriteWithin ⟨settings, .standard⟩ grid passes text) ∧
      Calculator.evaluate ⟨settings, .standard⟩ (choiceFormula condition first second) grid =
        Calculator.rewriteWithin ⟨settings, .standard⟩ grid passes
            (choiceArguments condition first second) >>= fun arguments =>
          Registry.standard.call settings Library.branchFunction (Arguments.split arguments) >>=
            fun value => Calculator.result value.literal := by
  obtain ⟨passes, limit, conditionScript, firstScript, secondScript, conditionRead, firstRead,
    secondRead, conditionDepth, firstDepth, secondDepth⟩ := choice.exists_scripts
  refine ⟨passes, ?_, ?_⟩
  · have enough {text : List Char} {script : Script} (read : Script.ofChars text = .ok script)
        (depth : script.callDepth ≤ passes) :
        Calculator.rewrite ⟨settings, .standard⟩ grid text =
          Calculator.rewriteWithin ⟨settings, .standard⟩ grid passes text := by
      rw [Calculator.rewrite_eq_rewriteWithin]
      exact Calculator.rewriteWithin_of_enough read depth (by rw [limit]; omega)
    intro text member
    simp only [List.mem_cons, List.not_mem_nil, or_false] at member
    rcases member with rfl | rfl | rfl
    · exact enough conditionRead conditionDepth
    · exact enough firstRead firstDepth
    · exact enough secondRead secondDepth
  · have read : Script.ofChars (choiceArguments condition first second) =
        .ok (conditionScript.beside (firstScript.beside secondScript)) :=
      Script.ofChars_comma conditionRead (Script.ofChars_comma firstRead secondRead)
    have named : Script.callName? Library.branchFunction = some Library.branchFunction := rfl
    have numeric : opensText Library.branchFunction = false := rfl
    have depth : (conditionScript.beside (firstScript.beside secondScript)).callDepth ≤ passes := by
      rw [Script.callDepth_beside, Script.callDepth_beside]
      omega
    -- the last pass is for the choice itself
    rw [Calculator.evaluate_of_clean choice.clean, body_choiceFormula,
      Calculator.rewrite_eq_rewriteWithin, limit,
      Calculator.rewriteWithin_call named numeric read depth]
    cases Calculator.rewriteWithin ⟨settings, .standard⟩ grid passes
        (choiceArguments condition first second) with
    | error error => rfl
    | ok arguments =>
        rw [Outcome.ok_bind, Outcome.ok_bind]
        cases Registry.standard.call settings Library.branchFunction (Arguments.split arguments) <;> rfl

/-- With the condition and one branch in, the arguments come to what the other branch adds. -/
theorem rewriteWithin_choiceArguments (choice : IsChoice settings condition first second)
    {passes : Nat} {condition' left : List Char}
    (conditionSame : Calculator.rewriteWithin ⟨settings, .standard⟩ grid passes condition =
      .ok condition') (isTrue : Bool)
    (leftSame : Calculator.rewriteWithin ⟨settings, .standard⟩ grid passes
      (if isTrue then second else first) = .ok left) :
    Calculator.rewriteWithin ⟨settings, .standard⟩ grid passes
        (choiceArguments condition first second) =
      (fun taken => choiceArguments condition' (if isTrue then taken else left)
          (if isTrue then left else taken)) <$>
        Calculator.rewriteWithin ⟨settings, .standard⟩ grid passes
          (if isTrue then first else second) := by
  have checked (text : List Char) (member : text ∈ [condition, first, second]) :=
    (choice.single text member).checked
  have branchesChecked : Script.check 0 false (first ++ ',' :: second) = .ok () := by
    rw [Script.check_append (checked first (by simp))]
    exact checked second (by simp)
  rw [choiceArguments, Calculator.rewriteWithin_comma_of_first (checked condition (by simp))
    branchesChecked conditionSame]
  cases isTrue with
  | true =>
      simp only [if_true] at leftSame ⊢
      rw [Calculator.rewriteWithin_comma_of_rest (checked first (by simp)) leftSame,
        Functor.map_map]
      rfl
  | false =>
      simp only [Bool.false_eq_true, if_false] at leftSame ⊢
      rw [Calculator.rewriteWithin_comma_of_first (checked first (by simp))
        (checked second (by simp)) leftSame, Functor.map_map]
      rfl

/-- A choice has the value of the branch that its condition chooses, if the other branch comes to
anything. -/
theorem evaluate_eq (choice : IsChoice settings condition first second) {chosen : Value}
    (holds : Calculator.argument ⟨settings, .standard⟩ grid condition = .ok chosen)
    {left : List Char}
    (leftSame : Calculator.rewrite ⟨settings, .standard⟩ grid
      (if chosen.isTrue then second else first) = .ok left) :
    Calculator.evaluate ⟨settings, .standard⟩ (choiceFormula condition first second) grid = (do
      let value ← Calculator.argument ⟨settings, .standard⟩ grid
        (if chosen.isTrue then first else second)
      let value ← Expression.requireFinite
        (.invalidExpression (.nonFiniteResult Library.branchFunction)) value
      Calculator.result value.literal) := by
  obtain ⟨passes, same, evaluates⟩ := choice.exists_evaluate_eq grid
  have listed (isTrue : Bool) :
      (if isTrue then first else second) ∈ [condition, first, second] := by
    cases isTrue <;> simp
  obtain ⟨condition', conditionSame, value⟩ := Outcome.bind_eq_ok.mp holds
  rw [same condition (by simp)] at conditionSame
  rw [same _ (by cases chosen.isTrue <;> simp)] at leftSame
  rw [evaluates, choice.rewriteWithin_choiceArguments conditionSame _ leftSame,
    Calculator.argument, same _ (listed _)]
  cases taken : Calculator.rewriteWithin ⟨settings, .standard⟩ grid passes
      (if chosen.isTrue then first else second) with
  | error error => rfl
  | ok result =>
      have firstSame : Calculator.rewriteWithin ⟨settings, .standard⟩ grid passes first =
          .ok (if chosen.isTrue then result else left) := by
        cases isTrue : chosen.isTrue <;> simp_all
      have secondSame : Calculator.rewriteWithin ⟨settings, .standard⟩ grid passes second =
          .ok (if chosen.isTrue then left else result) := by
        cases isTrue : chosen.isTrue <;> simp_all
      have called := choice.call_of_arguments conditionSame firstSame secondSame
      have branch : (if chosen.isTrue then if chosen.isTrue then result else left
          else if chosen.isTrue then left else result) = result := by
        cases chosen.isTrue <;> rfl
      rw [value, Outcome.ok_bind, branch] at called
      simp only [Except.map_ok, Outcome.ok_bind, called]
      cases argumentValue (trim result) <;> rfl

end IsChoice

/-- A choice depends on the branch that is left out only in that its references resolve and its calls
succeed: any two that do give the same outcome, whatever they come to, be it a division by zero or
no expression at all. -/
theorem Calculator.evaluate_of_other_branch (settings : Settings) (grid : Grid)
    {condition : List Char} {chosen : Value}
    (holds : Calculator.argument ⟨settings, .standard⟩ grid condition = .ok chosen) :
    (chosen.isTrue = true → ∀ first second other,
        IsChoice settings condition first second → IsChoice settings condition first other →
        (∃ left, Calculator.rewrite ⟨settings, .standard⟩ grid second = .ok left) →
        (∃ left, Calculator.rewrite ⟨settings, .standard⟩ grid other = .ok left) →
        Calculator.evaluate ⟨settings, .standard⟩ (choiceFormula condition first second) grid =
          Calculator.evaluate ⟨settings, .standard⟩ (choiceFormula condition first other) grid) ∧
      (chosen.isTrue = false → ∀ first other second,
        IsChoice settings condition first second → IsChoice settings condition other second →
        (∃ left, Calculator.rewrite ⟨settings, .standard⟩ grid first = .ok left) →
        (∃ left, Calculator.rewrite ⟨settings, .standard⟩ grid other = .ok left) →
        Calculator.evaluate ⟨settings, .standard⟩ (choiceFormula condition first second) grid =
          Calculator.evaluate ⟨settings, .standard⟩ (choiceFormula condition other second) grid) := by
  constructor
  · intro isTrue first second other choice otherChoice comes otherComes
    obtain ⟨left, comes⟩ := comes
    obtain ⟨otherLeft, otherComes⟩ := otherComes
    rw [choice.evaluate_eq holds (by rw [if_pos isTrue]; exact comes),
      otherChoice.evaluate_eq holds (by rw [if_pos isTrue]; exact otherComes), if_pos isTrue,
      if_pos isTrue]
  · intro isFalse first other second choice otherChoice comes otherComes
    obtain ⟨left, comes⟩ := comes
    obtain ⟨otherLeft, otherComes⟩ := otherComes
    have notTrue : ¬ chosen.isTrue = true := by simp [isFalse]
    rw [choice.evaluate_eq holds (by rw [if_neg notTrue]; exact comes),
      otherChoice.evaluate_eq holds (by rw [if_neg notTrue]; exact otherComes), if_neg notTrue,
      if_neg notTrue]

/-- Where `A1` is zero, a quotient by it and one of a call by it are both left out. -/
theorem Calculator.evaluate_of_other_branch_of_quotients :
    let grid : Grid := ⟨[[.number 0.0]]⟩
    Calculator.evaluate {} (choiceFormula "A1=0".toList "7".toList "10/A1".toList) grid =
      Calculator.evaluate {} (choiceFormula "A1=0".toList "7".toList "SUM(1,2)/A1".toList) grid := by
  intro grid
  have holds : Calculator.argument {} grid "A1=0".toList = .ok (.number 1.0) := by decide +kernel
  have isTrue : (Value.number 1.0).isTrue = true := by decide +kernel
  exact (evaluate_of_other_branch {} grid holds).1 isTrue _ _ _ (by decide +kernel)
    (by decide +kernel) ⟨"10/0".toList, by decide +kernel⟩ ⟨"3/0".toList, by decide +kernel⟩

/-- Where the branch left out divides by zero within a call, the choice fails. -/
theorem Calculator.evaluate_of_failing_branch :
    Calculator.argument {} {} "1".toList = .ok (.number 1.0) ∧
      (Value.number 1.0).isTrue = true ∧
      IsChoice {} "1".toList "2".toList "SUM(1/0)".toList ∧
      IsChoice {} "1".toList "2".toList "3".toList ∧
      Calculator.evaluate {} (choiceFormula "1".toList "2".toList "SUM(1/0)".toList) {} =
        .error .divisionByZero ∧
      Calculator.evaluate {} (choiceFormula "1".toList "2".toList "3".toList) {} =
        .ok (.number 2.0) := by
  decide +kernel

end Worksheet
