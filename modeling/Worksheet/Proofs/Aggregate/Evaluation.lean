import Mathlib
import Worksheet.Proofs.Aggregate.Argument
import Worksheet.Proofs.Aggregate.Call
import Worksheet.Proofs.Function.Errors

/-!
# Aggregates of a grid

A formula that calls one aggregate on numbers, cells and ranges has the value of the aggregate on
the numbers of its arguments: the way through text loses none of them, counts none twice, and keeps
their order.
-/

set_option autoImplicit false

namespace Worksheet

/-- An aggregate of the library is a numeric function of any number of arguments. It gives a number
or says that the expression is invalid. -/
theorem Library.aggregate_spec {function : Function} (member : function ∈ functions)
    {run : List Float → Settings → Except FormulaError Value}
    (isAggregate : function.body = .aggregate run) :
    (∃ numeric : NumericFunction, numeric.name = function.name) ∧
      Registry.standard.get? function.name = some function ∧ function.arity = .any ∧
        ∀ numbers settings, (∃ x, run numbers settings = .ok (.number x)) ∨
          ∃ fault, run numbers settings = .error (.invalidExpression fault) := by
  have extremum (name : String) (pick : Float → Float → Float) (numbers : List Float)
      (settings : Settings) : (∃ x, Aggregate.extremum name pick numbers settings = .ok (.number x)) ∨
        ∃ fault, Aggregate.extremum name pick numbers settings =
          .error (.invalidExpression fault) := by
    unfold Aggregate.extremum
    split
    · exact .inl ⟨_, rfl⟩
    · exact .inl ⟨_, rfl⟩
    · exact .inr ⟨_, rfl⟩
  revert run
  revert function
  simp only [functions, List.forall_mem_cons]
  refine ⟨?sum, ?average, ?least, ?greatest, ?count, ?median, ?product, ?round, ?absolute, ?power,
    ?squareRoot, ?choose, ?concat, List.forall_mem_nil _⟩
  -- The body of any other function is of another kind.
  all_goals rintro run ⟨⟩
  case sum => exact ⟨⟨.sum, rfl⟩, rfl, trivial, fun _ _ => .inl ⟨_, rfl⟩⟩
  case average => exact ⟨⟨.average, rfl⟩, rfl, trivial, fun _ _ => .inl ⟨_, rfl⟩⟩
  case least => exact ⟨⟨.min, rfl⟩, rfl, trivial, extremum _ _⟩
  case greatest => exact ⟨⟨.max, rfl⟩, rfl, trivial, extremum _ _⟩
  case count => exact ⟨⟨.count, rfl⟩, rfl, trivial, fun _ _ => .inl ⟨_, rfl⟩⟩
  case median => exact ⟨⟨.median, rfl⟩, rfl, trivial, fun _ _ => .inl ⟨_, rfl⟩⟩
  case product => exact ⟨⟨.product, rfl⟩, rfl, trivial, fun _ _ => .inl ⟨_, rfl⟩⟩

/-- A call of an aggregate gives what the aggregate makes of its arguments and refuses a result that
is not finite. -/
theorem Registry.call_of_apply {settings : Settings} {function : Function}
    (member : function ∈ Library.functions)
    {run : List Float → Settings → Except FormulaError Value}
    (isAggregate : function.body = .aggregate run) (arguments : List (List Char)) :
    Registry.standard.call settings function.name arguments =
      (Body.aggregate run).apply settings arguments >>=
        Expression.requireFinite (.invalidExpression (.nonFiniteResult function.name)) := by
  obtain ⟨⟨numeric, named⟩, found, arity, _⟩ := Library.aggregate_spec member isAggregate
  have canonical : capitals function.name = function.name := by rw [← named, numeric.capitals_name]
  have admitted (count : Nat) : Arity.any.admits count = true := by simp [Arity.admits, Arity.any]
  rw [Registry.call, canonical]
  simp only [found, arity, admitted, if_true, isAggregate]

theorem Registry.call_aggregate {settings : Settings} {function : Function}
    (member : function ∈ Library.functions)
    {run : List Float → Settings → Except FormulaError Value}
    (isAggregate : function.body = .aggregate run) {text : List Char} {numbers : List Float}
    (spells : SpellsNumbers text numbers) :
    Registry.standard.call settings function.name (Arguments.split text) =
      run numbers settings >>=
        Expression.requireFinite (.invalidExpression (.nonFiniteResult function.name)) := by
  rw [Registry.call_of_apply member isAggregate, spells.apply_aggregate]

theorem Calculator.result_numberLiteral {x : Float} (finite : x.isFinite = true) :
    Calculator.result (numberLiteral x) = .ok (.number (x + 0.0)) := by
  have value := @Tree.value_numeral {} {} x finite
  have shallow : (Tree.numeral (x + 0.0)).nesting ≤ groupLimit :=
    (Tree.nesting_numeral _).trans (by decide)
  rw [← @Tree.spelled_numeral CellWord.token x finite,
    @Tree.result_spelled CellWord.token {} {} _ (Tree.readable_numeral _) shallow]
  refine ⟨x + 0.0, ?_, by rw [add_zero_add_zero finite]⟩
  simp [Tree.result, value, Tree.finiteOr, isFinite_add_zero finite]

/-- The finite value of an aggregate is read back from its literal, and anything else is an invalid
expression. -/
theorem Calculator.result_of_aggregate {computed : Except FormulaError Value}
    (total : (∃ x, computed = .ok (.number x)) ∨
      ∃ fault, computed = .error (.invalidExpression fault)) (refused : Fault) :
    let outcome := computed >>= Expression.requireFinite (.invalidExpression refused) >>=
      fun value => Calculator.result value.literal
    (∀ x, computed = .ok (.number x) → x.isFinite = true → outcome = .ok (.number (x + 0.0))) ∧
      ((¬ ∃ x, computed = .ok (.number x) ∧ x.isFinite = true) →
        ∃ fault, outcome = .error (.invalidExpression fault)) := by
  refine ⟨fun x success finite => ?_, fun none => ?_⟩
  · rw [success]
    simp only [Outcome.ok_bind, Expression.requireFinite, finite, if_true]
    exact Calculator.result_numberLiteral finite
  · rcases total with ⟨x, success⟩ | ⟨fault, failed⟩
    · have infinite : ¬ x.isFinite = true := fun finite => none ⟨x, success, finite⟩
      refine ⟨refused, ?_⟩
      rw [success]
      simp [Expression.requireFinite, infinite]
    · refine ⟨fault, ?_⟩
      rw [failed]
      rfl

/-- An aggregate of numbers, cells and ranges sees exactly the numbers among them: the formula
succeeds with its value on these numbers when that is finite, and is an invalid expression
otherwise. -/
theorem Calculator.evaluate_aggregate (settings : Settings)
    (lenient : settings.strictReferences = false) (positive : 1 ≤ settings.nestingLimit)
    (grid : Grid) {function : Function} (member : function ∈ Library.functions)
    {run : List Float → Settings → Except FormulaError Value}
    (isAggregate : function.body = .aggregate run) {arguments : List Argument}
    (nonempty : arguments ≠ []) :
    let outcome := (⟨settings, .standard⟩ : Calculator).evaluate
      ('=' :: (function.name ++ '(' :: (Argument.textAll arguments ++ [')']))) grid
    let computed := run (Argument.numbersAll grid arguments) settings
    (∀ x, computed = .ok (.number x) → x.isFinite = true → outcome = .ok (.number (x + 0.0))) ∧
      ((¬ ∃ x, computed = .ok (.number x) ∧ x.isFinite = true) →
        ∃ fault, outcome = .error (.invalidExpression fault)) := by
  intro outcome computed
  obtain ⟨⟨numeric, named⟩, _, _, total⟩ := Library.aggregate_spec member isAggregate
  obtain ⟨literal, resolves, spells⟩ := @Argument.resolves_textAll grid settings lenient arguments
    nonempty
  have outcome_eq : outcome =
      computed >>= Expression.requireFinite (.invalidExpression (.nonFiniteResult function.name)) >>=
        fun value => Calculator.result value.literal := by
    have evaluated := Calculator.evaluate_call (Argument.isPlain_textAll arguments) spells.operand
      positive (resolves.call numeric).resolve_eq
    rwa [NumericFunction.callText, named, Registry.call_aggregate member isAggregate spells]
      at evaluated
  rw [outcome_eq]
  exact Calculator.result_of_aggregate (total _ _) _

/-- Rows of different lengths with a text among the numbers, a cell that holds a text, one that is
absent, and a number. -/
theorem Calculator.evaluate_aggregate_of_ragged_rows :
    Calculator.evaluate {} "=SUM(A1:B3,B1,C9,0.5)".toList
        ⟨[[.number 1.0, .text "x".toList], [], [.text " 2.5".toList, .number (-0.0), .number 4.0]]⟩ =
      .ok (.number 4.0) := by
  let grid : Grid :=
    ⟨[[.number 1.0, .text "x".toList], [], [.text " 2.5".toList, .number (-0.0), .number 4.0]]⟩
  let region : Range := ⟨⟨0, 0⟩, ⟨1, 2⟩⟩
  let held : CellWord := ⟨['B'], ['1'], by simp, by simp, rfl, rfl⟩
  let absent : CellWord := ⟨['C'], ['9'], by simp, by simp, rfl, rfl⟩
  let literal : UnsignedLiteral := ⟨"0.5".toList, ⟨5, -1⟩, by decide, by decide⟩
  let arguments : List Argument :=
    [.range region ⟨"A1:B3".toList, by decide +kernel⟩, .cell held, .cell absent,
      .number literal (by decide +kernel)]
  have text : Argument.textAll arguments = "A1:B3,B1,C9,0.5".toList := by decide +kernel
  have numbers : Argument.numbersAll grid arguments = [1.0, 2.5, 0.0, 0.0, 0.5] := by
    decide +kernel
  have value : Aggregate.sum [1.0, 2.5, 0.0, 0.0, 0.5] = 4.0 := by decide +kernel
  have evaluated := (Calculator.evaluate_aggregate {} rfl (by decide) grid
    (List.mem_cons_self (a := Library.functions[0])) rfl (List.cons_ne_nil _ _ : arguments ≠ [])).1
    4.0 (by rw [numbers, value]) (by decide +kernel)
  rw [text] at evaluated
  exact evaluated

end Worksheet
