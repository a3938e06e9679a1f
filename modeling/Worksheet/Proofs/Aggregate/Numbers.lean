import Mathlib
import Worksheet.Proofs.Reference.Resolution
import Worksheet.Proofs.Tree.Reduction
import Worksheet.Proofs.Tree.Calls

/-!
# Numbers in a list of arguments

An aggregate takes the numbers among its arguments. The text of a number contributes that number,
a quoted text that spells no number contributes none, and so does the literal of an empty range.
Texts with commas between them are split into themselves, so together they contribute the numbers
of all of them, in order and each once.
-/

set_option autoImplicit false

namespace Worksheet

/-- The text is one argument, and these are the numbers that it contributes to an aggregate. -/
structure Contributes (text : List Char) (numbers : List Float) : Prop where
  operand : IsOperandText text
  solid : Arguments.IsSolid text
  trimmed : trim text = text
  nonempty : text ≠ []
  evaluated : isMissing text = true ∧ numbers = [] ∨
    isMissing text = false ∧
      ∃ value, Expression.valueOf text = .ok value ∧ value.number?.toList = numbers

/-- The text is a list of arguments with commas between them, and these are their numbers. -/
inductive SpellsNumbers : List Char → List Float → Prop
  | single {text : List Char} {numbers : List Float} (contributes : Contributes text numbers) :
      SpellsNumbers text numbers
  | comma {text rest : List Char} {numbers others : List Float}
      (contributes : Contributes text numbers) (spells : SpellsNumbers rest others) :
      SpellsNumbers (text ++ ',' :: rest) (numbers ++ others)

theorem contributes_empty : Contributes emptyRangeLiteral [] where
  operand := isOperandText_group (by rfl : isFlat false [] = true)
  solid := Arguments.isSolid_nil.group
  trimmed := by decide
  nonempty := by decide
  evaluated := .inl ⟨by decide, rfl⟩

theorem contributes_spelled {tree : Tree} (readable : tree.Readable)
    (shallow : tree.nesting ≤ groupLimit)
    (operand : IsOperandText (tree.spelled CellWord.token)) {x : Float}
    (value : tree.value {} {} = .ok x) (finite : x.isFinite = true) :
    Contributes (tree.spelled CellWord.token) [x] where
  operand := operand
  solid := Tree.isSolid_spelled readable
  trimmed := Tree.trim_spelled readable
  nonempty := Tree.spelled_ne_nil readable
  evaluated := by
    right
    refine ⟨Tree.isMissing_spelled readable, .number x, ?_, rfl⟩
    have evaluated := @Tree.valueOf_spelled CellWord.token {} {} tree readable shallow
    rw [evaluated, value]
    simp [Tree.finiteOr, finite]

theorem contributes_numberLiteral {x : Float} (finite : x.isFinite = true) :
    Contributes (numberLiteral x) [x + 0.0] := by
  have spelled := @Tree.spelled_numeral CellWord.token x finite
  have shallow : (Tree.numeral (x + 0.0)).nesting ≤ groupLimit :=
    (Tree.nesting_numeral _).trans (by decide)
  have operand := isOperandText_numberLiteral finite
  rw [← spelled] at operand ⊢
  exact contributes_spelled (Tree.readable_numeral _) shallow operand (Tree.value_numeral finite)
    (isFinite_add_zero finite)

theorem contributes_digits {literal : UnsignedLiteral}
    (finite : (literal.decimal.toFloat false).isFinite = true) :
    Contributes literal.digits [literal.decimal.toFloat false + 0.0] := by
  have numeric := List.all_eq_true.mp literal.numeric
  rw [add_zero_of_nonnegative finite (Decimal.isNegative_toFloat finite)]
  exact @contributes_spelled (.number literal) trivial (Nat.zero_le _)
    (isOperandText_of_flat (isFlat_numeric numeric)) _ rfl finite

theorem valueOf_quote (content : List Char) :
    Expression.valueOf (quote content) = .ok (.text content) := by
  unfold Expression.valueOf
  rw [Token.ofText_quote]
  rfl

theorem contributes_quote {content : List Char} (none : plainNumber? content = none) :
    Contributes (quote content) [] where
  operand := isOperandText_of_flat (isFlat_quoted content)
  solid := Arguments.isSolid_quote content
  trimmed := trim_quote content
  nonempty := by simp [quote]
  evaluated := by
    right
    refine ⟨?_, .text content, valueOf_quote content, ?_⟩
    · simp [isMissing, quote, emptyRangeLiteral]
    · simp [Value.number?, none]

namespace SpellsNumbers

theorem append {first second : List Char} {numbers others : List Float}
    (left : SpellsNumbers first numbers) (right : SpellsNumbers second others) :
    SpellsNumbers (first ++ ',' :: second) (numbers ++ others) := by
  induction left with
  | single contributes => exact .comma contributes right
  | comma contributes _ ih =>
      rw [List.append_assoc, List.append_assoc, List.cons_append]
      exact .comma contributes ih

variable {text : List Char} {numbers : List Float} (spells : SpellsNumbers text numbers)
include spells

theorem operand : IsOperandText text := by
  induction spells with
  | single contributes => exact contributes.operand
  | comma contributes _ ih => exact contributes.operand.comma ih

theorem trim_ne_nil : trim text ≠ [] := by
  have visible : ∃ c ∈ text, isBlank c = false := by
    cases spells with
    | single contributes =>
        by_contra none
        have blank : ∀ c ∈ text, isBlank c = true := by simpa using none
        have trimmed := contributes.trimmed
        rw [trim, List.dropWhile_eq_nil_iff.mpr blank] at trimmed
        exact contributes.nonempty trimmed.symm
    | comma contributes _ => exact ⟨',', by simp, by decide⟩
  obtain ⟨c, member, notBlank⟩ := visible
  obtain ⟨front, back, same, frontBlank, backBlank⟩ := exists_blanks_of_trim text
  intro empty
  rw [same, empty, List.nil_append] at member
  have blank : isBlank c = true := (List.mem_append.mp member).elim (frontBlank c) (backBlank c)
  rw [notBlank] at blank
  cases blank

theorem parts :
    ∃ values, (((Arguments.parts 0 false text).map trim).filter (!isMissing ·)).mapM
        Expression.valueOf = .ok values ∧ values.filterMap Value.number? = numbers := by
  induction spells with
  | @single text numbers contributes =>
      rw [contributes.solid.parts_eq, List.map_singleton, contributes.trimmed]
      rcases contributes.evaluated with ⟨missing, rfl⟩ | ⟨present, value, evaluated, rfl⟩
      · exact ⟨[], by simp [missing], rfl⟩
      · refine ⟨[value], by simp [present, evaluated], ?_⟩
        cases number : value.number? <;> simp [number]
  | @comma text rest numbers others contributes _ ih =>
      obtain ⟨values, evaluatedRest, rfl⟩ := ih
      rw [contributes.solid.parts_comma, List.map_cons, contributes.trimmed]
      rcases contributes.evaluated with ⟨missing, rfl⟩ | ⟨present, value, evaluated, rfl⟩
      · refine ⟨values, ?_, rfl⟩
        rw [List.filter_cons_of_neg (by simp [missing])]
        exact evaluatedRest
      · refine ⟨value :: values, ?_, ?_⟩
        · rw [List.filter_cons_of_pos (by simp [present]), List.mapM_cons, evaluated,
            Outcome.ok_bind, evaluatedRest]
          rfl
        · cases number : value.number? <;> simp [number]

theorem apply_aggregate (run : List Float → Settings → Except FormulaError Value)
    (settings : Settings) :
    (Body.aggregate run).apply settings (Arguments.split text) = run numbers settings := by
  obtain ⟨values, evaluated, rfl⟩ := spells.parts
  rw [Body.apply, Arguments.split, if_neg (by simpa using spells.trim_ne_nil), evaluated]
  rfl

end SpellsNumbers

theorem spellsNumbers_numbersLiteral {numbers : List Float}
    (finite : ∀ x ∈ numbers, x.isFinite = true) :
    SpellsNumbers (numbersLiteral numbers) (numbers.map (· + 0.0)) := by
  cases numbers with
  | nil => exact .single contributes_empty
  | cons first rest =>
      change SpellsNumbers ([','].intercalate ((first :: rest).map numberLiteral)) _
      induction rest generalizing first with
      | nil => simpa using SpellsNumbers.single (contributes_numberLiteral (finite first (by simp)))
      | cons second rest ih =>
          have tail := ih second fun x member => finite x (List.mem_cons_of_mem _ member)
          have head := contributes_numberLiteral (finite first (by simp))
          simpa [List.intercalate] using SpellsNumbers.comma head tail

end Worksheet
