import Mathlib
import Worksheet.Proofs.Formula.Failure
import Worksheet.Proofs.Function.Case
import Worksheet.Proofs.Reference.Case

/-!
# Letter case in formulas

Two formulas that differ only in the case of letters outside literals are checked alike, and they
have the same value or the same error, unless they call `CONCAT`, which shows its arguments as they
are written. Each has the same capital form, and every stage of an evaluation leads from capital
forms to capital forms.
-/

set_option autoImplicit false

namespace Worksheet

theorem wholeNameBehind?_capitals (behind : List Char) :
    wholeNameBehind? (capitals behind) = (wholeNameBehind? behind).map capitals := by
  have edge (text : List Char) : wordEdge (capitals text).head? = wordEdge text.head? := by
    cases text with
    | nil => rfl
    | cons c rest => simp [capitals, wordEdge, Piece.ignoresCase_isWord c]
  have shorter (count : Nat) : (capitals behind).drop count = capitals (behind.drop count) :=
    (List.map_drop ..).symm
  have whole (name : List Char) :
      wordEdge ((capitals behind).drop (capitals name).length).head? =
        wordEdge (behind.drop name.length).head? := by
    rw [shorter, edge, capitals, List.length_map]
  unfold wholeNameBehind?
  rw [nameBehind?_capitals, Option.filter_map]
  simp only [Function.comp_def, whole]

theorem calledNames_capitals (behind text : List Char) :
    calledNames (capitals behind) (capitals text) = (calledNames behind text).map capitals := by
  induction text generalizing behind with
  | nil => rfl
  | cons c rest ih =>
      have opening : c.toUpper = '(' ↔ c = '(' := toUpper_eq_iff (by decide)
      have later : calledNames (c.toUpper :: capitals behind) (capitals rest) =
          (calledNames (c :: behind) rest).map capitals := ih (c :: behind)
      have here : (wholeNameBehind? (capitals behind)).toList =
          (wholeNameBehind? behind).toList.map capitals := by
        rw [wholeNameBehind?_capitals]
        cases wholeNameBehind? behind <;> rfl
      rw [capitals_cons, calledNames, calledNames, List.map_append, later, here]
      simp only [opening]
      split <;> rfl

theorem callNamesFrom_outerCapitals (inside : Bool) {behind behind' : List Char}
    (same : capitals behind' = capitals behind) (text : List Char) :
    (callNamesFrom inside behind' (outerCapitals inside text)).map capitals =
      (callNamesFrom inside behind text).map capitals := by
  induction text generalizing inside behind behind' with
  | nil => rfl
  | cons c rest ih =>
      have later : capitals (outerCapital inside c :: behind') = capitals (c :: behind) := by
        rw [capitals_cons, toUpper_outerCapital, same, capitals_cons]
      have here : (nameBehind? behind').toList.map capitals =
          (nameBehind? behind).toList.map capitals := by
        have names := congrArg nameBehind? same
        rw [nameBehind?_capitals, nameBehind?_capitals] at names
        rw [← Option.toList_map, ← Option.toList_map, names]
      simp only [outerCapitals_cons, callNamesFrom, List.map_append, outerCapital_eq_quote,
        outerCapital_eq_opening, ih _ later]
      congr 1
      split
      · exact here
      · rfl

theorem callNames_outerCapitals (text : List Char) :
    (callNames (outerCapitals false text)).map capitals = (callNames text).map capitals :=
  callNamesFrom_outerCapitals false rfl text

namespace Formula

theorem body_outerCapitals (formula : List Char) :
    body (outerCapitals false formula) = outerCapitals false (body formula) := by
  unfold body
  rw [trim_outerCapitals]
  cases trim formula with
  | nil => rfl
  | cons c rest =>
      by_cases equals : c = '='
      · subst equals
        exact trim_outerCapitals false rest
      · have stays : outerCapital false c ≠ '=' := by rwa [Ne, outerCapital_eq_iff (by decide)]
        simpa [outerCapitals_cons, equals, stays] using trim_outerCapitals false (c :: rest)

theorem isBalanced_capitals (depth : Nat) (text : List Char) :
    isBalanced depth (capitals text) = isBalanced depth text := by
  induction text generalizing depth with
  | nil => rfl
  | cons c rest ih =>
      have opening : c.toUpper = '(' ↔ c = '(' := toUpper_eq_iff (by decide)
      have closing : c.toUpper = ')' ↔ c = ')' := toUpper_eq_iff (by decide)
      simp only [capitals, List.map_cons] at ih ⊢
      simp only [isBalanced, opening, closing, ih]

theorem unknownFunctions_capitals (registry : Registry) (text : List Char) :
    unknownFunctions registry (capitals text) = unknownFunctions registry text := by
  have names :
      (calledNames [] (capitals text)).map capitals = (calledNames [] text).map capitals := by
    have called : calledNames [] (capitals text) = (calledNames [] text).map capitals :=
      calledNames_capitals [] text
    rw [called, List.map_map]
    exact List.map_congr_left fun name _ => capitals_capitals name
  rw [unknownFunctions, names, unknownFunctions]

theorem check_outerCapitals (registry : Registry) (formula : List Char) :
    check registry (outerCapitals false formula) = check registry formula := by
  unfold check maskQuoted
  simp only []
  rw [body_outerCapitals, isEmpty_outerCapitals, endsQuoted_outerCapitals, maskFrom_outerCapitals,
    isBalanced_capitals, unknownFunctions_capitals]

end Formula

namespace Calculator

theorem result_outerCapitals (text : List Char) :
    result (outerCapitals false text) = result text := by
  unfold result
  rw [trim_outerCapitals, unquote?_outerCapitals, Expression.arithmeticOf_outerCapitals]

theorem reduce_outerCapitals (settings : Settings) {text : List Char}
    (noText : ∀ name ∈ callNames text, capitals name ≠ textFunction) :
    reduce ⟨settings, .standard⟩ (outerCapitals false text) =
      (reduce ⟨settings, .standard⟩ text).map (outerCapitals false) := by
  have finite := Script.returnsFinite_call .standard settings
  refine Script.reduceText_outerCapitals finite fun script read dispatch member name same => ?_
  have notText := noText _ (Script.mem_callNames_of_mem_dispatches finite read member)
  rw [Arguments.split_outerCapitals]
  exact Registry.call_standard_outerCapitals settings same notText _

theorem evaluate_outerCapitals (settings : Settings) (grid : Grid) {formula : List Char}
    (noText : ∀ name ∈ callNames (Formula.body formula), capitals name ≠ textFunction) :
    evaluate ⟨settings, .standard⟩ (outerCapitals false formula) grid =
      evaluate ⟨settings, .standard⟩ formula grid := by
  have sameCheck : check ⟨settings, .standard⟩ (outerCapitals false formula) =
      check ⟨settings, .standard⟩ formula := Formula.check_outerCapitals .standard formula
  unfold evaluate
  rw [sameCheck, Formula.body_outerCapitals, resolve_outerCapitals]
  cases resolved : resolve grid settings (Formula.body formula) with
  | error error => rfl
  | ok text =>
      have names := (resolve_keeps resolved).1
      have reduced := reduce_outerCapitals settings (names.symm ▸ noText)
      simp only [Except.map, Outcome.ok_bind, reduced]
      cases reduce ⟨settings, .standard⟩ text with
      | error error => rfl
      | ok residue => simp only [Outcome.ok_bind, result_outerCapitals]

/-- Two formulas that differ only in the case of letters outside literals, and do not call `CONCAT`,
have the same value or the same error, and the check finds the same in both. -/
theorem evaluate_ignores_case (settings : Settings) (grid : Grid) {first second : List Char}
    (same : outerCapitals false first = outerCapitals false second)
    (noText : ∀ name ∈ callNames (Formula.body first), capitals name ≠ textFunction) :
    evaluate ⟨settings, .standard⟩ first grid = evaluate ⟨settings, .standard⟩ second grid ∧
      check ⟨settings, .standard⟩ first = check ⟨settings, .standard⟩ second := by
  have names : (callNames (Formula.body second)).map capitals =
      (callNames (Formula.body first)).map capitals := by
    rw [← callNames_outerCapitals, ← Formula.body_outerCapitals, ← same,
      Formula.body_outerCapitals, callNames_outerCapitals]
  have noText' : ∀ name ∈ callNames (Formula.body second), capitals name ≠ textFunction := by
    intro name member
    have inFirst : capitals name ∈ (callNames (Formula.body first)).map capitals :=
      names ▸ List.mem_map_of_mem member
    obtain ⟨other, otherMember, sameName⟩ := List.mem_map.mp inFirst
    exact sameName ▸ noText other otherMember
  constructor
  · rw [← evaluate_outerCapitals settings grid noText, same,
      evaluate_outerCapitals settings grid noText']
  · rw [check, check, ← Formula.check_outerCapitals, same, Formula.check_outerCapitals]

/-- A formula in small letters has the value of the same formula in capitals. -/
theorem evaluate_ignores_case_of_branch :
    evaluate {} "=if(a1 > 1, Sum(a1:b1), \"No\")".toList ⟨[[.number 2.0, .number 3.0]]⟩ =
        .ok (.number 5.0) ∧
      check {} "=if(a1 > 1, Sum(a1:b1), \"No\")".toList = [] := by
  have inCapitals : evaluate {} "=IF(A1 > 1, SUM(A1:B1), \"No\")".toList
      ⟨[[.number 2.0, .number 3.0]]⟩ = .ok (.number 5.0) := by decide +kernel
  have passes : check {} "=IF(A1 > 1, SUM(A1:B1), \"No\")".toList = [] := by decide +kernel
  obtain ⟨sameValue, sameCheck⟩ :=
    @evaluate_ignores_case {} ⟨[[.number 2.0, .number 3.0]]⟩
      "=if(a1 > 1, Sum(a1:b1), \"No\")".toList "=IF(A1 > 1, SUM(A1:B1), \"No\")".toList
      (by decide +kernel) (by decide +kernel)
  exact ⟨sameValue.trans inCapitals, sameCheck.trans passes⟩

/-- `CONCAT` shows the text of a range as it is written. -/
example :
    evaluate {} "=CONCAT(a:a)".toList {} = .ok (.text "a:a".toList) ∧
      evaluate {} "=CONCAT(A:A)".toList {} = .ok (.text "A:A".toList) := by
  decide +kernel

end Calculator

end Worksheet
