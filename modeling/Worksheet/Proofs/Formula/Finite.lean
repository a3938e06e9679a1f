import Mathlib
import Worksheet.Formula.Calculator
import Worksheet.Proofs.Aggregate.Numbers
import Worksheet.Proofs.Expression.Spacing

/-!
# No infinite numbers and no negative zero

A number passes from one part of a formula to the next in three ways: as a literal in a text, as an
argument of a function, and as the value of a call or of the whole formula. On each way it is
finite. A literal spells no negative zero, because zero is added to a number before it is spelled,
and for the same reason a formula never comes to one.
-/

set_option autoImplicit false

namespace Worksheet

theorem add_zero_ne {x : Float} (finite : x.isFinite = true) : x + 0.0 ≠ -0.0 := by
  rcases add_zero_cases finite with zero | ⟨same, positive⟩
  · rw [zero]
    decide
  · rw [same]
    rintro rfl
    exact absurd positive (by decide +kernel)

theorem Value.IsFinite.of_number? {value : Value} (finite : value.IsFinite) {x : Float}
    (numeric : value.number? = some x) : x.isFinite = true := by
  cases value with
  | number y =>
      obtain rfl := Option.some.inj numeric
      exact finite
  | text content => exact (Option.filter_eq_some_iff.mp numeric).2

theorem Expression.isFinite_of_valueOf {text : List Char} {value : Value}
    (evaluated : valueOf text = .ok value) : value.IsFinite := by
  obtain ⟨_, _, _, finite⟩ := valueOf_eq_ok.mp evaluated
  exact finite

theorem isFinite_of_argumentValue {argument : List Char} {value : Value}
    (evaluated : argumentValue argument = .ok value) : value.IsFinite := by
  unfold argumentValue at evaluated
  split at evaluated
  · obtain rfl := Except.ok.inj evaluated
    exact (by decide : (0.0 : Float).isFinite = true)
  · exact Expression.isFinite_of_valueOf evaluated

theorem Outcome.forall_of_mapM {α β : Type} {f : α → Except FormulaError β} {property : β → Prop}
    (each : ∀ a b, f a = .ok b → property b) {list : List α} {results : List β}
    (succeeded : list.mapM f = .ok results) : ∀ b ∈ results, property b := by
  induction list generalizing results with
  | nil =>
      obtain rfl := Except.ok.inj succeeded
      simp
  | cons first rest ih =>
      rw [List.mapM_cons] at succeeded
      obtain ⟨b, here, succeeded⟩ := Outcome.bind_eq_ok.mp succeeded
      obtain ⟨others, later, same⟩ := Outcome.bind_eq_ok.mp succeeded
      obtain rfl := Except.ok.inj same
      exact List.forall_mem_cons.mpr ⟨each first b here, ih later⟩

def aggregateNumbers (arguments : List (List Char)) : Except FormulaError (List Float) := do
  let values ← (arguments.filter fun argument => !isMissing argument).mapM Expression.valueOf
  return values.filterMap Value.number?

theorem isFinite_of_aggregateNumbers {arguments : List (List Char)} {numbers : List Float}
    (gathered : aggregateNumbers arguments = .ok numbers) : ∀ x ∈ numbers, x.isFinite = true := by
  obtain ⟨values, evaluated, same⟩ := Outcome.bind_eq_ok.mp gathered
  obtain rfl := Except.ok.inj same
  intro x member
  obtain ⟨value, inside, numeric⟩ := List.mem_filterMap.mp member
  have finite : ∀ value ∈ values, value.IsFinite :=
    Outcome.forall_of_mapM (fun _ _ => Expression.isFinite_of_valueOf) evaluated
  exact (finite value inside).of_number? numeric

theorem Body.apply_aggregate (run : List Float → Settings → Except FormulaError Value)
    (settings : Settings) (arguments : List (List Char)) :
    (Body.aggregate run).apply settings arguments =
      (aggregateNumbers arguments >>= fun numbers => run numbers settings) := by
  unfold Body.apply aggregateNumbers
  cases (arguments.filter fun argument => !isMissing argument).mapM Expression.valueOf <;> rfl

/-- The text spells a number, which is finite and no negative zero. -/
def DenotesNumber (literal : List Char) : Prop :=
  ∃ x, Expression.valueOf literal = .ok (.number x) ∧ x.isFinite = true ∧ x ≠ -0.0

/-- What takes the place of a reference or of a call: a quoted text, the literal of no numbers, or
the literals of numbers with commas between them. -/
inductive IsSpliced : List Char → Prop
  | text (content : List Char) : IsSpliced (quote content)
  | nothing : IsSpliced emptyRangeLiteral
  | numbers {literals : List (List Char)} (nonempty : literals ≠ [])
      (denote : ∀ literal ∈ literals, DenotesNumber literal) :
      IsSpliced ([','].intercalate literals)

theorem IsSpliced.single {literal : List Char} (denotes : DenotesNumber literal) :
    IsSpliced literal := by
  have alone := @IsSpliced.numbers [literal] (by simp) (by simpa using denotes)
  simpa [List.intercalate] using alone

theorem valueOf_numberLiteral {x : Float} (finite : x.isFinite = true) :
    Expression.valueOf (numberLiteral x) = .ok (.number (x + 0.0)) := by
  have shallow : (Tree.numeral (x + 0.0)).nesting ≤ groupLimit :=
    (Tree.nesting_numeral _).trans (by decide)
  have evaluated := @Tree.valueOf_spelled CellWord.token {} {} _ (Tree.readable_numeral _) shallow
  rw [Tree.spelled_numeral finite, Tree.value_numeral finite] at evaluated
  simpa [Tree.finiteOr, isFinite_add_zero finite] using evaluated

theorem denotesNumber_numberLiteral {x : Float} (finite : x.isFinite = true) :
    DenotesNumber (numberLiteral x) :=
  ⟨x + 0.0, valueOf_numberLiteral finite, isFinite_add_zero finite, add_zero_ne finite⟩

theorem denotesNumber_zero : DenotesNumber ['0'] := by
  have spelled : numberLiteral 0.0 = ['0'] := by decide +kernel
  rw [← spelled]
  exact denotesNumber_numberLiteral (by decide)

theorem isSpliced_literal {value : Value} (finite : value.IsFinite) : IsSpliced value.literal := by
  cases value with
  | number x => exact .single (denotesNumber_numberLiteral finite)
  | text content => exact .text content

theorem isSpliced_numbersLiteral {numbers : List Float}
    (finite : ∀ x ∈ numbers, x.isFinite = true) : IsSpliced (numbersLiteral numbers) := by
  cases numbers with
  | nil => exact .nothing
  | cons first rest =>
      refine .numbers (by simp) fun literal member => ?_
      obtain ⟨x, inside, rfl⟩ := List.mem_map.mp member
      exact denotesNumber_numberLiteral (finite x inside)

theorem isSpliced_cellOperand (value : Value) : IsSpliced (cellOperand value) := by
  unfold cellOperand
  split
  · rename_i found
    exact .single (denotesNumber_numberLiteral (isFinite_of_cellNumber? found))
  · split
    · split
      · exact .single denotesNumber_zero
      · exact .text _
    · exact .single denotesNumber_zero

theorem isSpliced_of_rangeLiteral {grid : Grid} {settings : Settings} {readsText : Bool}
    {token literal : List Char} (read : rangeLiteral grid settings readsText token = .ok literal) :
    literal = token ∨ IsSpliced literal := by
  unfold rangeLiteral at read
  split at read
  · cases read
    exact .inl rfl
  · right
    split at read
    · rw [eq_of_unresolved read]
      exact .nothing
    · split at read
      · rw [eq_of_unresolved read]
        exact .nothing
      · cases read
        exact isSpliced_numbersLiteral fun _ => isFinite_of_mem_numbers

theorem isSpliced_of_cellLiteral {grid : Grid} {settings : Settings} {readsText : Bool}
    {token literal : List Char} (read : cellLiteral grid settings readsText token = .ok literal) :
    IsSpliced literal := by
  unfold cellLiteral at read
  split at read
  · rw [eq_of_unresolved read]
    split
    · exact .text []
    · exact .single denotesNumber_zero
  · cases read
    split
    · exact .text _
    · exact isSpliced_cellOperand _

theorem isSpliced_of_resolvePiece {grid : Grid} {settings : Settings} {place : Place}
    {piece : Piece} {rest : List Piece} {literal : List Char}
    (read : resolvePiece grid settings place piece rest = .ok literal) :
    literal = piece.chars ∨ IsSpliced literal := by
  unfold resolvePiece at read
  split at read
  · cases read
    exact .inl rfl
  · cases piece with
    | plain c =>
        cases read
        exact .inl rfl
    | range token => exact isSpliced_of_rangeLiteral read
    | cell token => exact .inr (isSpliced_of_cellLiteral read)

theorem exists_literals_of_resolvePieces {grid : Grid} {settings : Settings} {place : Place}
    {pieces : List Piece} {resolved : List Char}
    (resolves : resolvePieces grid settings place pieces = .ok resolved) :
    ∃ literals, List.Forall₂ (fun piece literal => literal = piece.chars ∨ IsSpliced literal)
      pieces literals ∧ literals.flatten = resolved := by
  induction pieces generalizing place resolved with
  | nil =>
      cases resolves
      exact ⟨[], .nil, rfl⟩
  | cons piece rest ih =>
      obtain ⟨literal, here, resolves⟩ := Outcome.bind_eq_ok.mp resolves
      obtain ⟨others, later, same⟩ := Outcome.bind_eq_ok.mp resolves
      obtain rfl := Except.ok.inj same
      obtain ⟨literals, spliced, rfl⟩ := ih later
      exact ⟨literal :: literals, .cons (isSpliced_of_resolvePiece here) spliced, rfl⟩

theorem isFinite_of_result {text : List Char} {x : Float}
    (evaluated : Calculator.result text = .ok (.number x)) : x.isFinite = true ∧ x ≠ -0.0 := by
  unfold Calculator.result at evaluated
  split at evaluated
  · cases evaluated
  · obtain ⟨y, arithmetic, same⟩ := Outcome.bind_eq_ok.mp evaluated
    obtain rfl := Value.number.inj (Except.ok.inj same)
    unfold Expression.arithmeticOf at arithmetic
    split at arithmetic
    · obtain ⟨value, read, arithmetic⟩ := Outcome.bind_eq_ok.mp arithmetic
      cases value with
      | number z =>
          obtain rfl := Except.ok.inj arithmetic
          have finite : z.isFinite = true := Expression.isFinite_of_valueOf read
          exact ⟨isFinite_add_zero finite, add_zero_ne finite⟩
      | text content => cases arithmetic
    · cases arithmetic

namespace Calculator

/-- Functions of every kind are handed finite numbers only, texts of arguments and calls come to
finite numbers only, what takes the place of a reference or of a call spells finite numbers without
negative zeros, and so is every number that a formula comes to. -/
theorem numbers_stay_finite (calculator : Calculator) (grid : Grid) (formula : List Char) :
    (∀ arguments, ∃ handed : Except FormulaError (List Float),
      (∀ numbers, handed = .ok numbers → ∀ x ∈ numbers, x.isFinite = true) ∧
        ∀ run, (Body.aggregate run).apply calculator.settings arguments =
          (handed >>= fun numbers => run numbers calculator.settings)) ∧
    (∀ arguments, ∃ handed : Except FormulaError (List Value),
      (∀ values, handed = .ok values → ∀ x, .number x ∈ values → x.isFinite = true) ∧
        ∀ run, (Body.scalar run).apply calculator.settings arguments =
          (handed >>= fun values => run values calculator.settings)) ∧
    (∀ arguments run, (Body.lazy run).apply calculator.settings arguments =
      run arguments argumentValue calculator.settings) ∧
    (∀ argument x, argumentValue argument = .ok (.number x) → x.isFinite = true) ∧
    (∀ text x, Expression.valueOf text = .ok (.number x) → x.isFinite = true) ∧
    (∀ name arguments x,
      calculator.registry.call calculator.settings name arguments = .ok (.number x) →
        x.isFinite = true) ∧
    (∀ resolved, resolve grid calculator.settings (Formula.body formula) = .ok resolved →
      (∃ literals, List.Forall₂ (fun piece literal => literal = piece.chars ∨ IsSpliced literal)
        (Piece.ofChars (Formula.body formula)) literals ∧ literals.flatten = resolved) ∧
      ∀ script, Script.ofChars resolved = .ok script →
        let call := calculator.registry.call calculator.settings
        let log := script.dispatches call calculator.settings.nestingLimit
        Script.IsRun call resolved log ∧
          ∀ dispatch ∈ log, ∀ value, dispatch.outcome call = .ok value →
            IsSpliced value.literal) ∧
    ∀ x, calculator.evaluate formula grid = .ok (.number x) → x.isFinite = true ∧ x ≠ -0.0 := by
  refine ⟨fun arguments => ⟨aggregateNumbers arguments, fun _ => isFinite_of_aggregateNumbers,
      fun run => Body.apply_aggregate run _ arguments⟩,
    fun arguments => ⟨arguments.mapM argumentValue, fun values evaluated x member => ?_,
      fun _ => rfl⟩,
    fun _ _ => rfl, fun _ _ => isFinite_of_argumentValue, fun _ _ => Expression.isFinite_of_valueOf,
    fun _ _ _ => Registry.isFinite_of_call, fun resolved resolves => ?_, fun x evaluated => ?_⟩
  · exact Outcome.forall_of_mapM (fun _ _ => isFinite_of_argumentValue) evaluated _ member
  · refine ⟨exists_literals_of_resolvePieces resolves, fun script read => ?_⟩
    have finite := Script.returnsFinite_call calculator.registry calculator.settings
    have run := Script.isRun_dispatches finite calculator.settings.nestingLimit script
    rw [(Script.ofChars_eq_ok.mp read).2] at run
    exact ⟨run, fun dispatch _ value outcome => isSpliced_literal (finite _ _ _ outcome)⟩
  · unfold evaluate at evaluated
    split at evaluated
    · cases evaluated
    · obtain ⟨resolved, _, evaluated⟩ := Outcome.bind_eq_ok.mp evaluated
      obtain ⟨reduced, _, evaluated⟩ := Outcome.bind_eq_ok.mp evaluated
      exact isFinite_of_result evaluated

/-- The cell holds a negative zero. -/
theorem numbers_stay_finite_of_negative_zero :
    resolve ⟨[[.number (-0.0)]]⟩ {} (Formula.body "=A1".toList) = .ok ['0'] ∧
      (0.0 : Float).isFinite = true ∧ (0.0 : Float) ≠ -0.0 := by
  obtain ⟨_, _, _, _, _, _, _, results⟩ :=
    numbers_stay_finite {} ⟨[[.number (-0.0)]]⟩ "=A1".toList
  exact ⟨by decide +kernel, results 0.0 (by decide +kernel)⟩

end Calculator

end Worksheet
