import Mathlib
import Worksheet.Proofs.Aggregate.Numbers
import Worksheet.Proofs.Reference.Range
import Worksheet.Proofs.Tree.Resolution

/-!
# Arguments of aggregates

An argument of an aggregate is a number, a cell or a range. Its numbers are defined from the grid
alone. Resolving the references of a list of such arguments leaves a text that spells exactly these
numbers, whatever texts and blanks stand among the cells.
-/

set_option autoImplicit false

namespace Worksheet

/-- What a cell contributes to an aggregate: its number, and zero if the cell is absent, blank, or
holds a number that is not finite. Any other text contributes nothing. -/
def cellNumbers : Option Value → List Float
  | none => [0.0]
  | some value =>
      match value.cellNumber? with
      | some x => [x]
      | none =>
          match value with
          | .number _ => [0.0]
          | .text _ => if value.isBlankText then [0.0] else []

/-- An argument of an aggregate: a finite number without a sign, a cell, or a range that can be
read. -/
inductive Argument where
  | number (literal : UnsignedLiteral) (finite : (literal.decimal.toFloat false).isFinite = true)
  | cell (word : CellWord)
  | range (region : Range) (isRead : region.IsRead)

namespace Argument

def text : Argument → List Char
  | number literal _ => literal.digits
  | cell word => word.token
  | range region _ => region.name

def numbers (grid : Grid) : Argument → List Float
  | number literal _ => [literal.decimal.toFloat false]
  | cell word => cellNumbers ((Cell.read? word.token).bind grid.get?)
  | range region _ => region.numbers grid

def textAll (arguments : List Argument) : List Char :=
  [','].intercalate (arguments.map text)

def numbersAll (grid : Grid) (arguments : List Argument) : List Float :=
  (arguments.flatMap (numbers grid)).map (· + 0.0)

theorem textAll_singleton (argument : Argument) : textAll [argument] = argument.text := by
  simp [textAll]

theorem textAll_cons_cons (first second : Argument) (others : List Argument) :
    textAll (first :: second :: others) = first.text ++ ',' :: textAll (second :: others) := by
  simp [textAll, List.intercalate_cons_cons]

theorem numbersAll_singleton (grid : Grid) (argument : Argument) :
    numbersAll grid [argument] = (argument.numbers grid).map (· + 0.0) := by
  simp [numbersAll]

theorem numbersAll_cons (grid : Grid) (first : Argument) (others : List Argument) :
    numbersAll grid (first :: others) =
      (first.numbers grid).map (· + 0.0) ++ numbersAll grid others := by
  simp [numbersAll]

theorem isPlain_text (argument : Argument) : IsPlain argument.text := by
  cases argument with
  | number literal finite => exact literal.isPlain_digits
  | cell word => exact word.isPlain_token
  | range region isRead =>
      intro c member
      rcases region.isAlphanum_or_colon member with alphanumeric | rfl
      · exact isNameChar_ne (Piece.isNameChar_of_isAlphanum alphanumeric)
      · decide

theorem isPlain_textAll (arguments : List Argument) : IsPlain (textAll arguments) :=
  isPlain_intercalate (List.forall_mem_map.mpr fun argument _ => argument.isPlain_text)

variable {grid : Grid} {settings : Settings}

theorem contributes_cellOperand (value : Value) :
    Contributes (cellOperand value) ((cellNumbers (some value)).map (· + 0.0)) := by
  have zero : numberLiteral 0.0 = ['0'] := by decide +kernel
  have contributesZero : Contributes ['0'] [0.0 + 0.0] :=
    zero ▸ contributes_numberLiteral (by rfl : (0.0 : Float).isFinite = true)
  unfold cellOperand cellNumbers
  cases number : value.cellNumber? with
  | some x =>
      simp only [number]
      exact contributes_numberLiteral (isFinite_of_cellNumber? number)
  | none =>
      cases value with
      | number x =>
          simp only [number]
          exact contributesZero
      | text content =>
          by_cases blank : (Value.text content).isBlankText = true
          · simp only [number, blank, if_true]
            exact contributesZero
          · have notNumber : plainNumber? content = none := by
              cases found : plainNumber? content with
              | none => rfl
              | some x =>
                  have finite := (Option.filter_eq_some_iff.mp found).2
                  simp [Value.cellNumber?, Value.number?, found, finite] at number
            simp only [number, blank, Bool.false_eq_true, if_false]
            exact contributes_quote notNumber

theorem contributes_cellLiteral (lenient : settings.strictReferences = false) (token : List Char) :
    ∃ literal, cellLiteral grid settings false token = .ok literal ∧
      Contributes literal ((cellNumbers ((Cell.read? token).bind grid.get?)).map (· + 0.0)) := by
  unfold cellLiteral
  cases found : (Cell.read? token).bind grid.get? with
  | none =>
      have zero : numberLiteral 0.0 = ['0'] := by decide +kernel
      refine ⟨['0'], by simp [unresolved, lenient], ?_⟩
      exact zero ▸ contributes_numberLiteral (by rfl : (0.0 : Float).isFinite = true)
  | some value => exact ⟨cellOperand value, by simp, contributes_cellOperand value⟩

theorem spellsNumbers_rangeLiteral (lenient : settings.strictReferences = false) {range : Range}
    (isRead : range.IsRead) :
    ∃ literal, rangeLiteral grid settings false range.name = .ok literal ∧
      SpellsNumbers literal ((range.numbers grid).map (· + 0.0)) := by
  refine ⟨numbersLiteral (range.numbers grid), ?_, ?_⟩
  · simp [rangeLiteral, Range.read?_name isRead, lenient]
  · exact spellsNumbers_numbersLiteral fun _ => isFinite_of_mem_numbers

theorem resolves_text (lenient : settings.strictReferences = false) (argument : Argument) :
    ∃ literal, ResolvesAsNumbers grid settings argument.text literal ∧
      SpellsNumbers literal ((argument.numbers grid).map (· + 0.0)) := by
  cases argument with
  | number literal finite =>
      exact ⟨literal.digits, resolvesAsNumbers_digits literal, .single (contributes_digits finite)⟩
  | cell word =>
      obtain ⟨literal, read, contributes⟩ := @contributes_cellLiteral grid settings lenient word.token
      exact ⟨literal, resolvesAsNumbers_cell read, .single contributes⟩
  | range region isRead =>
      obtain ⟨literal, read, spells⟩ := @spellsNumbers_rangeLiteral grid settings lenient region isRead
      exact ⟨literal, resolvesAsNumbers_range (isPlain_text (range region isRead))
        (fun rest ends => Piece.reference?_of_range ends isRead) read, spells⟩

theorem resolves_textAll (lenient : settings.strictReferences = false) {arguments : List Argument}
    (nonempty : arguments ≠ []) :
    ∃ literal, ResolvesAsNumbers grid settings (textAll arguments) literal ∧
      SpellsNumbers literal (numbersAll grid arguments) := by
  induction arguments with
  | nil => exact absurd rfl nonempty
  | cons first others ih =>
      obtain ⟨literal, resolves, spells⟩ := @resolves_text grid settings lenient first
      cases others with
      | nil =>
          rw [textAll_singleton, numbersAll_singleton]
          exact ⟨literal, resolves, spells⟩
      | cons second others =>
          obtain ⟨literals, othersResolve, othersSpell⟩ := ih (by simp)
          rw [textAll_cons_cons, numbersAll_cons]
          exact ⟨literal ++ ',' :: literals, resolves.comma othersResolve, spells.append othersSpell⟩

end Argument

end Worksheet
