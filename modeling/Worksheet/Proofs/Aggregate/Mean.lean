import Mathlib
import Worksheet.Proofs.Aggregate.Evaluation
import Worksheet.Proofs.Aggregate.Word
import Worksheet.Proofs.Number.Quotient

/-!
# The mean as a quotient of two calls

`AVERAGE` divides inside one call. A formula that divides `SUM` by `COUNT` divides two literals that
were spliced into its text, a negative one in parentheses. Both come to the same number, or neither
has a finite one.
-/

set_option autoImplicit false

namespace Worksheet

namespace Script

variable {first second : List Char} (operator : Arithmetic)

theorem stopsName_operator : StopsName [operator.symbol].reverse :=
  stopsName_cons (by cases operator <;> decide) []

theorem callName?_behind_operator (named : nameBehind? second.reverse = some second) :
    callName? ([operator.symbol] ++ second) = some second := by
  rw [callName?, List.reverse_append, nameBehind?_append_of_stops _ (stopsName_operator operator),
    named]

theorem ofChars_two_calls (firstNamed : nameBehind? first.reverse = some first)
    (secondNamed : nameBehind? second.reverse = some second) {inner : Script}
    (matched : inner.Matched false) :
    ofChars (first ++ '(' :: (inner.chars ++ ')' :: operator.symbol ::
        (second ++ '(' :: (inner.chars ++ [')'])))) =
      .ok (.group first inner (.group ([operator.symbol] ++ second) inner (.plain []))) := by
  have symbolPlain : IsPlain [operator.symbol] := by
    cases operator <;> (intro c member; rw [List.mem_singleton.mp member]; decide)
  refine ofChars_eq_ok.mpr ⟨⟨isFlat_of_plain (isPlain_of_name firstNamed), matched, ?_, matched, rfl⟩, ?_⟩
  · exact isFlat_of_plain (List.forall_mem_append.mpr ⟨symbolPlain, isPlain_of_name secondNamed⟩)
  · simp [chars]

theorem hasCall_two_values {left right : Value} (leftFinite : left.IsFinite)
    (rightFinite : right.IsFinite) :
    (splice [] left (splice [operator.symbol] right (.plain []))).hasCall = false := by
  -- how calls are evaluated does not matter to how deep they nest
  obtain ⟨_, rightDepth, rightApart⟩ :=
    @splice_spec (fun _ _ => .ok right) _ (stopsName_operator operator) _ rightFinite (.plain [])
      trivial true
  obtain ⟨_, depth, _⟩ :=
    @splice_spec (fun _ _ => .ok right) [] stopsName_nil _ leftFinite _ rightApart false
  exact (callDepth_eq_zero_iff _).mp (depth.trans rightDepth)

end Script

/-- Two calls with an operator between them are replaced by the literals of their values, the second
one first. -/
theorem Calculator.reduce_two_calls (calculator : Calculator) {first second inner : List Char}
    (firstNamed : nameBehind? first.reverse = some first)
    (secondNamed : nameBehind? second.reverse = some second) (operand : IsOperandText inner)
    (positive : 0 < calculator.settings.nestingLimit) (operator : Arithmetic) :
    calculator.reduce (first ++ '(' :: (inner ++ ')' :: operator.symbol ::
        (second ++ '(' :: (inner ++ [')'])))) = do
      let right ← calculator.registry.call calculator.settings second (Arguments.split inner)
      let left ← calculator.registry.call calculator.settings first (Arguments.split inner)
      return left.literal ++ operator.symbol :: right.literal := by
  have finite := Script.returnsFinite_call calculator.registry calculator.settings
  obtain ⟨script, matched, rfl, none⟩ := operand.exists_script
  have secondLead := Script.callName?_behind_operator operator secondNamed
  have secondBefore : Script.beforeName ([operator.symbol] ++ second) second =
      [operator.symbol] := by simp [Script.beforeName]
  have firstBefore : Script.beforeName first first = [] := by simp [Script.beforeName]
  obtain ⟨limit, limitEq⟩ := Nat.exists_eq_add_of_lt positive
  rw [Calculator.reduce, Script.reduceText,
    Script.ofChars_two_calls operator firstNamed secondNamed matched, Outcome.ok_bind, limitEq,
    Script.reduce]
  have nested : (Script.group first script
      (.group ([operator.symbol] ++ second) script (.plain []))).hasCall = true := by
    simp [Script.hasCall, Script.callName?, firstNamed]
  simp only [nested, if_true, Script.pass, Outcome.ok_bind, none, Bool.false_eq_true, if_false,
    secondLead, secondBefore, show Script.callName? first = some first from firstNamed, firstBefore]
  cases secondCalled : calculator.registry.call calculator.settings second
      (Arguments.split script.chars) with
  | error error => rfl
  | ok right =>
      cases firstCalled : calculator.registry.call calculator.settings first
          (Arguments.split script.chars) with
      | error error => rfl
      | ok left =>
          have rightFinite := finite _ _ _ secondCalled
          have leftFinite := finite _ _ _ firstCalled
          have done := Script.hasCall_two_values operator leftFinite rightFinite
          simp [Script.reduce_of_no_call done, Script.chars_splice leftFinite,
            Script.chars_splice rightFinite, Script.chars]

/-- The text is a list of arguments, and these are the numbers that an aggregate sees in it. -/
structure Supplies (text : List Char) (numbers : List Float) : Prop where
  operand : IsOperandText text
  applied : ∀ run settings,
    (Body.aggregate run).apply settings (Arguments.split text) = run numbers settings

theorem supplies_nil : Supplies [] [] where
  operand := isOperandText_of_flat rfl
  applied _ _ := rfl

theorem SpellsNumbers.supplies {text : List Char} {numbers : List Float}
    (spells : SpellsNumbers text numbers) : Supplies text numbers :=
  ⟨spells.operand, spells.apply_aggregate⟩

theorem ArgumentWord.exists_literal {settings : Settings}
    (lenient : settings.strictReferences = false) (grid : Grid) (words : List ArgumentWord) :
    ∃ literal numbers, Supplies literal numbers ∧
      (∀ function : NumericFunction, resolve grid settings (function.callText (textAll words)) =
        .ok (function.callText literal)) ∧
      ∀ (first second : NumericFunction) (operator : Arithmetic),
        resolve grid settings (first.callText (textAll words) ++ operator.symbol ::
            second.callText (textAll words)) =
          .ok (first.callText literal ++ operator.symbol :: second.callText literal) := by
  obtain ⟨literal, numbers, supplies, resolves⟩ : ∃ literal numbers, Supplies literal numbers ∧
      ResolvesAsNumbers grid settings (textAll words) literal := by
    cases words with
    | nil => exact ⟨[], [], supplies_nil, resolvesAsNumbers_nil⟩
    | cons first others =>
        obtain ⟨literal, numbers, spells, resolves⟩ :=
          @resolves_textAll grid settings lenient (first :: others) (by simp)
        exact ⟨literal, numbers, spells.supplies, resolves⟩
  exact ⟨literal, numbers, supplies, fun function => (resolves.call function).resolve_eq,
    fun first second operator =>
      ((resolves.call first).operator (resolves.call second) operator).resolve_eq⟩

theorem Calculator.result_two_literals {x y : Float} (left : x.isFinite = true)
    (right : y.isFinite = true) (operator : Arithmetic) :
    Calculator.result (numberLiteral x ++ operator.symbol :: numberLiteral y) =
      operator.operator.compute (x + 0.0) (y + 0.0) >>= fun z =>
        (fun z => Value.number (z + 0.0)) <$> Tree.finiteOr (.invalidExpression .notFinite) z := by
  let tree : Tree := .binary operator (.numeral (x + 0.0)) (.numeral (y + 0.0))
  have spelled : tree.spelled CellWord.token =
      numberLiteral x ++ operator.symbol :: numberLiteral y := by
    rw [Tree.spelled, Tree.spelled_numeral left, Tree.spelled_numeral right]
  have readable : tree.Readable := by
    have loose := operator.strength_le
    refine ⟨?_, ?_, Tree.readable_numeral _, Tree.readable_numeral _⟩ <;>
      rw [Tree.strength_numeral] <;> omega
  have shallow : tree.nesting ≤ groupLimit :=
    max_le ((Tree.nesting_numeral _).trans (by decide)) ((Tree.nesting_numeral _).trans (by decide))
  rw [← spelled, @Tree.result_spelled_eq CellWord.token {} {} tree readable shallow, Tree.result,
    Tree.value, Tree.value_numeral left, Tree.value_numeral right, Outcome.ok_bind, Outcome.ok_bind]
  cases operator.operator.compute (x + 0.0) (y + 0.0) <;> rfl

theorem NumericFunction.call_of_supplies {function : NumericFunction}
    {compute : List Float → Float} {description : String}
    (member : ⟨function.name, .any, .aggregate fun numbers _ => .ok (.number (compute numbers)),
      description⟩ ∈ Library.functions) {text : List Char} {numbers : List Float}
    (supplies : Supplies text numbers) (settings : Settings) :
    Registry.standard.call settings function.name (Arguments.split text) =
      if (compute numbers).isFinite then .ok (.number (compute numbers))
      else .error (.invalidExpression (.nonFiniteResult function.name)) := by
  rw [Registry.call_of_apply member rfl, supplies.applied]
  rfl

section

variable {text : List Char} {numbers : List Float} (supplies : Supplies text numbers)
  (settings : Settings)
include supplies

theorem Supplies.call_count :
    Registry.standard.call settings NumericFunction.count.name (Arguments.split text) =
      if (Float.ofNat numbers.length).isFinite then .ok (.number (Float.ofNat numbers.length))
      else .error (.invalidExpression (.nonFiniteResult NumericFunction.count.name)) :=
  @NumericFunction.call_of_supplies .count (fun numbers => Float.ofNat numbers.length) _
    (@List.getElem_mem _ Library.functions 4 (by decide)) text numbers supplies settings

theorem Supplies.call_sum :
    Registry.standard.call settings NumericFunction.sum.name (Arguments.split text) =
      if (Aggregate.sum numbers).isFinite then .ok (.number (Aggregate.sum numbers))
      else .error (.invalidExpression (.nonFiniteResult NumericFunction.sum.name)) :=
  @NumericFunction.call_of_supplies .sum Aggregate.sum _
    (@List.getElem_mem _ Library.functions 0 (by decide)) text numbers supplies settings

theorem Supplies.call_average :
    Registry.standard.call settings NumericFunction.average.name (Arguments.split text) =
      if (Aggregate.average numbers).isFinite then .ok (.number (Aggregate.average numbers))
      else .error (.invalidExpression (.nonFiniteResult NumericFunction.average.name)) :=
  @NumericFunction.call_of_supplies .average Aggregate.average _
    (@List.getElem_mem _ Library.functions 1 (by decide)) text numbers supplies settings

end

section

variable {settings : Settings} {grid : Grid} {text literal : List Char}
  (plain : IsPlain text) (operand : IsOperandText literal) (positive : 1 ≤ settings.nestingLimit)
include plain operand positive

theorem Calculator.evaluate_two_calls {first second : NumericFunction} {operator : Arithmetic}
    (resolved : resolve grid settings
        (first.callText text ++ operator.symbol :: second.callText text) =
      .ok (first.callText literal ++ operator.symbol :: second.callText literal)) :
    (⟨settings, .standard⟩ : Calculator).evaluate
        ('=' :: (first.callText text ++ operator.symbol :: second.callText text)) grid =
      Registry.standard.call settings second.name (Arguments.split literal) >>= fun right =>
        Registry.standard.call settings first.name (Arguments.split literal) >>= fun left =>
          Calculator.result (left.literal ++ operator.symbol :: right.literal) := by
  have symbolPlain : IsPlain [operator.symbol] := by
    cases operator <;> (intro c member; rw [List.mem_singleton.mp member]; decide)
  have checked : Script.check 0 false
      (first.callText text ++ operator.symbol :: second.callText text) = .ok () := by
    have rest := @NumericFunction.check_callText second text plain 0 []
    rw [List.append_nil] at rest
    rw [NumericFunction.check_callText plain, ← List.singleton_append,
      Script.check_plain 0 false symbolPlain, rest]
    rfl
  have noQuote : '"' ∉ first.callText text ++ operator.symbol :: second.callText text := by
    intro member
    rcases List.mem_append.mp member with left | inRest
    · exact NumericFunction.noQuote_callText plain left
    · rcases List.mem_cons.mp inRest with isSymbol | right
      · exact (symbolPlain _ List.mem_cons_self).1 isSymbol.symm
      · exact NumericFunction.noQuote_callText plain right
  have calls : Tree.CallsFunctions []
      (first.callText text ++ operator.symbol :: second.callText text) := by
    refine (NumericFunction.callsFunctions_callText plain stopsName_nil).append ?_
    have symbol := @Tree.callsFunctions_of_plain ((first.callText text).reverse ++ [])
      [operator.symbol] fun c member => (symbolPlain c member).2.1
    exact symbol.append (NumericFunction.callsFunctions_callText plain
      (stopsName_cons (by cases operator <;> decide) _))
  have last := @NumericFunction.isBlank_last_callText second text
    (first.callText text ++ [operator.symbol])
  rw [List.append_assoc, List.singleton_append] at last
  obtain ⟨body, clean⟩ := Formula.check_of_calls (by simp) NumericFunction.isBlank_head_callText last
    noQuote checked calls
  have reduced := Calculator.reduce_two_calls ⟨settings, .standard⟩ first.nameBehind?_name
    second.nameBehind?_name operand positive operator
  change _ = Except.bind _ _ at reduced
  rw [← NumericFunction.callText, ← NumericFunction.callText_append] at reduced
  rw [Calculator.evaluate, Calculator.check, clean]
  simp only [body, resolved, Outcome.ok_bind, reduced]
  cases Registry.standard.call settings second.name (Arguments.split literal) with
  | error error => rfl
  | ok right =>
      cases Registry.standard.call settings first.name (Arguments.split literal) <;> rfl

end

/-! ## The mean -/

/-- The numbers have a count above zero that is a finite number. It divides as it stands, because
its literal loses no sign. -/
structure HasCount (numbers : List Float) : Prop where
  nonempty : numbers ≠ []
  finite : (Float.ofNat numbers.length).isFinite = true
  same : Float.ofNat numbers.length + 0.0 = Float.ofNat numbers.length
  nonzero : (Float.ofNat numbers.length == 0.0) = false

theorem HasCount.average_eq {numbers : List Float} (counted : HasCount numbers) :
    Aggregate.average numbers = Aggregate.sum numbers / Float.ofNat numbers.length := by
  simp [Aggregate.average, counted.nonempty]

section

variable {settings : Settings} {grid : Grid} {text literal : List Char} {numbers : List Float}
  (plain : IsPlain text) (supplies : Supplies literal numbers)
  (positive : 1 ≤ settings.nestingLimit)
include plain supplies positive

theorem Calculator.hasCount_of_evaluate
    (resolved : resolve grid settings (NumericFunction.count.callText text) =
      .ok (NumericFunction.count.callText literal)) {count : Float}
    (counted : (⟨settings, .standard⟩ : Calculator).evaluate
      ('=' :: NumericFunction.count.callText text) grid = .ok (.number count))
    (above : 0.0 < count) : HasCount numbers := by
  rw [Calculator.evaluate_call plain supplies.operand positive resolved, supplies.call_count]
    at counted
  have finite : (Float.ofNat numbers.length).isFinite = true := by
    by_contra infinite
    rw [if_neg infinite] at counted
    cases counted
  rw [if_pos finite, Outcome.ok_bind] at counted
  have read := Calculator.result_numberLiteral finite
  have count_eq := Value.number.inj (Except.ok.inj (read.symm.trans counted))
  obtain ⟨same, nonzero⟩ := add_zero_of_positive finite (count_eq ▸ above)
  refine ⟨?_, finite, same, nonzero⟩
  rintro rfl
  revert nonzero
  decide

theorem Calculator.evaluate_average (counted : HasCount numbers)
    (resolved : resolve grid settings (NumericFunction.average.callText text) =
      .ok (NumericFunction.average.callText literal)) :
    let mean := Aggregate.sum numbers / Float.ofNat numbers.length
    (⟨settings, .standard⟩ : Calculator).evaluate
        ('=' :: NumericFunction.average.callText text) grid =
      if mean.isFinite then .ok (.number (mean + 0.0))
      else .error (.invalidExpression (.nonFiniteResult NumericFunction.average.name)) := by
  intro mean
  rw [Calculator.evaluate_call plain supplies.operand positive resolved, supplies.call_average,
    counted.average_eq]
  by_cases finite : mean.isFinite = true
  · rw [if_pos finite, if_pos finite]
    exact Calculator.result_numberLiteral finite
  · rw [if_neg finite, if_neg finite]
    rfl

/-- The literals of the sum and of the count divide as the numbers themselves do. -/
theorem Calculator.evaluate_sum_over_count (counted : HasCount numbers)
    (resolved : resolve grid settings (NumericFunction.sum.callText text ++
        Arithmetic.divide.symbol :: NumericFunction.count.callText text) =
      .ok (NumericFunction.sum.callText literal ++
        Arithmetic.divide.symbol :: NumericFunction.count.callText literal)) :
    let mean := Aggregate.sum numbers / Float.ofNat numbers.length
    (⟨settings, .standard⟩ : Calculator).evaluate
        ('=' :: (NumericFunction.sum.callText text ++
          Arithmetic.divide.symbol :: NumericFunction.count.callText text)) grid =
      if (Aggregate.sum numbers).isFinite then
        if mean.isFinite then .ok (.number (mean + 0.0)) else .error (.invalidExpression .notFinite)
      else .error (.invalidExpression (.nonFiniteResult NumericFunction.sum.name)) := by
  intro mean
  rw [Calculator.evaluate_two_calls plain supplies.operand positive resolved, supplies.call_count,
    if_pos counted.finite, Outcome.ok_bind, supplies.call_sum]
  by_cases total : (Aggregate.sum numbers).isFinite = true
  · obtain ⟨quotient, finiteSame⟩ := add_zero_div total (Float.ofNat numbers.length)
    rw [if_pos total, if_pos total, Outcome.ok_bind]
    refine (Calculator.result_two_literals total counted.finite .divide).trans ?_
    simp only [Arithmetic.operator, Operator.compute, counted.same, counted.nonzero,
      Bool.false_eq_true, if_false, Outcome.ok_bind, Tree.finiteOr, finiteSame]
    by_cases finite : mean.isFinite = true
    · rw [if_pos finite, if_pos finite, ← quotient]
      rfl
    · rw [if_neg finite, if_neg finite]
      rfl
  · rw [if_neg total, if_neg total]
    rfl

end

/-- The mean of numbers, cells and ranges is their sum divided by their count: when the count is
above zero, both formulas succeed with the same number, or both are invalid expressions. -/
theorem Calculator.average_is_sum_over_count (settings : Settings)
    (lenient : settings.strictReferences = false) (positive : 1 ≤ settings.nestingLimit)
    (grid : Grid) (words : List ArgumentWord) {count : Float}
    (counted : (⟨settings, .standard⟩ : Calculator).evaluate
      ('=' :: NumericFunction.count.callText (ArgumentWord.textAll words)) grid =
        .ok (.number count))
    (above : 0.0 < count) :
    let mean := (⟨settings, .standard⟩ : Calculator).evaluate
      ('=' :: NumericFunction.average.callText (ArgumentWord.textAll words)) grid
    let quotient := (⟨settings, .standard⟩ : Calculator).evaluate
      ('=' :: (NumericFunction.sum.callText (ArgumentWord.textAll words) ++ '/' ::
        NumericFunction.count.callText (ArgumentWord.textAll words))) grid
    (∃ x, mean = .ok (.number x) ∧ quotient = .ok (.number x)) ∨
      ∃ fault fault', mean = .error (.invalidExpression fault) ∧
        quotient = .error (.invalidExpression fault') := by
  intro mean quotient
  obtain ⟨literal, numbers, supplies, single, double⟩ :=
    ArgumentWord.exists_literal lenient grid words
  have plain := ArgumentWord.isPlain_textAll words
  have hasCount := Calculator.hasCount_of_evaluate plain supplies positive (single .count) counted
    above
  have mean_eq : mean = _ :=
    Calculator.evaluate_average plain supplies positive hasCount (single .average)
  have quotient_eq : quotient = _ :=
    Calculator.evaluate_sum_over_count plain supplies positive hasCount (double .sum .count .divide)
  rw [mean_eq, quotient_eq]
  by_cases finite : (Aggregate.sum numbers / Float.ofNat numbers.length).isFinite = true
  · have total := isFinite_of_isFinite_div hasCount.finite finite
    rw [if_pos finite, if_pos total, if_pos finite]
    exact .inl ⟨_, rfl, rfl⟩
  · rw [if_neg finite, if_neg finite]
    right
    split
    · exact ⟨_, _, rfl, rfl⟩
    · exact ⟨_, _, rfl, rfl⟩

/-- Rows of different lengths, a range whose corners are swapped, a text among the numbers, an
absent cell, and a sum below zero, whose literal stands in parentheses. -/
theorem Calculator.average_is_sum_over_count_of_ragged_rows :
    let grid : Grid :=
      ⟨[[.number 1.0, .text "x".toList], [], [.text " 2.5".toList, .number (-6.5), .number 4.0]]⟩
    let mean := Calculator.evaluate {} "=AVERAGE(b3 : A1,B1,C9,0.5)".toList grid
    let quotient := Calculator.evaluate {}
      "=SUM(b3 : A1,B1,C9,0.5)/COUNT(b3 : A1,B1,C9,0.5)".toList grid
    (∃ x, mean = .ok (.number x) ∧ quotient = .ok (.number x)) ∨
      ∃ fault fault', mean = .error (.invalidExpression fault) ∧
        quotient = .error (.invalidExpression fault') := by
  let grid : Grid :=
    ⟨[[.number 1.0, .text "x".toList], [], [.text " 2.5".toList, .number (-6.5), .number 4.0]]⟩
  let held : CellWord := ⟨['B'], ['1'], by simp, by simp, rfl, rfl⟩
  let absent : CellWord := ⟨['C'], ['9'], by simp, by simp, rfl, rfl⟩
  let literal : UnsignedLiteral := ⟨"0.5".toList, ⟨5, -1⟩, by decide, by decide⟩
  let words : List ArgumentWord :=
    [.range "b3 : A1".toList (Pattern.mem_range_iff.mpr (by decide)), .cell held, .cell absent,
      .number literal (by decide +kernel)]
  have text : ArgumentWord.textAll words = "b3 : A1,B1,C9,0.5".toList := by decide
  have counted : Calculator.evaluate {}
      ('=' :: NumericFunction.count.callText (ArgumentWord.textAll words)) grid =
        .ok (.number 5.0) := by
    rw [text]
    decide +kernel
  have equal := Calculator.average_is_sum_over_count {} rfl (by decide) grid words counted
    (by decide)
  rw [text] at equal
  exact equal

end Worksheet
