import Mathlib
import Worksheet.Formula.Calculator
import Worksheet.Proofs.Expression.Lexing
import Worksheet.Proofs.Expression.Reading
import Worksheet.Proofs.Outcome
import Worksheet.Proofs.Tree.Shape

/-!
# Reading arithmetic

The text of a tree without cells and calls is read as the expression of the tree, and the value of
that expression is the value of the tree.
-/

set_option autoImplicit false

namespace Worksheet.Tree

variable {cellText : CellWord → List Char} {settings : Settings} {grid : Grid}

def Readable : Tree → Prop
  | number _ => True
  | cell _ => False
  | sign _ operand => 4 ≤ operand.strength ∧ operand.Readable
  | group inner => inner.Readable
  | binary operator left right =>
      operator.strength ≤ left.strength ∧ operator.strength < right.strength ∧
        left.Readable ∧ right.Readable
  | call _ _ => False

def expression : Tree → Expression
  | number literal => .number (literal.decimal.toFloat false)
  | sign negative operand => .sign negative operand.expression
  | group inner => .group inner.expression
  | binary operator left right => .binary operator.operator left.expression right.expression
  | cell _ => .number 0.0
  | call _ _ => .number 0.0

theorem strength_operator (operator : Arithmetic) :
    operator.operator.strength = operator.strength := by
  cases operator <;> rfl

theorem strength_expression (tree : Tree) : tree.expression.strength = tree.strength := by
  cases tree with
  | binary operator left right => exact strength_operator operator
  | _ => rfl

theorem proper_expression {tree : Tree} (readable : tree.Readable) :
    tree.expression.Proper := by
  induction tree using Tree.induction with
  | number literal => trivial
  | cell word => exact readable.elim
  | sign negative operand ih =>
      obtain ⟨tight, readable⟩ := readable
      exact ⟨by rw [strength_expression]; exact tight, ih readable⟩
  | group inner ih => exact ih readable
  | binary operator left right ihLeft ihRight =>
      obtain ⟨leftTight, rightTight, leftReadable, rightReadable⟩ := readable
      have two : 2 ≤ operator.strength := by cases operator <;> decide
      refine ⟨?_, ?_, ihLeft leftReadable, ihRight rightReadable⟩
      · rw [strength_operator, strength_expression]
        omega
      · rw [strength_operator, strength_expression]
        exact rightTight
  | call function arguments _ => exact readable.elim

theorem nesting_expression (tree : Tree) : tree.expression.nesting = tree.nesting := by
  induction tree using Tree.induction with
  | sign negative operand ih => rw [expression, nesting, Expression.nesting, ih]
  | group inner ih => rw [expression, nesting, Expression.nesting, ih]
  | binary operator left right ihLeft ihRight =>
      rw [expression, nesting, Expression.nesting, ihLeft, ihRight]
  | _ => rfl

theorem eval_expression {tree : Tree} (readable : tree.Readable) :
    tree.expression.eval = Value.number <$> tree.value settings grid := by
  induction tree using Tree.induction with
  | number literal => rfl
  | cell word => exact readable.elim
  | sign negative operand ih =>
      rw [expression, Expression.eval, ih readable.2, value]
      cases operand.value settings grid <;> rfl
  | group inner ih => rw [expression, Expression.eval, ih readable, value]
  | binary operator left right ihLeft ihRight =>
      obtain ⟨_, _, leftReadable, rightReadable⟩ := readable
      rw [expression, Expression.eval, ihLeft leftReadable, ihRight rightReadable, value]
      cases left.value settings grid with
      | error error => rfl
      | ok a =>
          cases right.value settings grid with
          | error error => rfl
          | ok b => cases operator <;> rfl
  | call function arguments _ => exact readable.elim

theorem signSymbol_cases (negative : Bool) :
    signSymbol negative = '+' ∧ Expression.signToken negative = .operator .add ∨
      signSymbol negative = '-' ∧ Expression.signToken negative = .operator .subtract := by
  cases negative <;> simp [signSymbol, Expression.signToken]

/-- The tokens of the text of a tree are those of its expression. -/
theorem ofText_spelled {tree : Tree} (readable : tree.Readable) {rest : List Char}
    (ends : Token.EndsNumber rest) :
    Token.ofText (tree.spelled cellText ++ rest) =
      (Token.ofText rest).map (tree.expression.tokens ++ ·) := by
  induction tree using Tree.induction generalizing rest with
  | number literal =>
      exact Token.ofText_number (List.all_eq_true.mp literal.numeric) literal.read ends
  | cell word => exact readable.elim
  | sign negative operand ih =>
      have token : Token.ofText (signSymbol negative :: (operand.spelled cellText ++ rest)) =
          (Token.ofText (operand.spelled cellText ++ rest)).map
            (Expression.signToken negative :: ·) := by
        rcases signSymbol_cases negative with ⟨symbol, same⟩ | ⟨symbol, same⟩ <;>
          (rw [symbol, same]; exact Token.ofText_symbol (by decide) (by decide) (by decide) rfl)
      rw [spelled, List.cons_append, token, ih readable.2 ends]
      cases Token.ofText rest <;> rfl
  | group inner ih =>
      have opening (text : List Char) :
          Token.ofText ('(' :: text) = (Token.ofText text).map (.opening :: ·) :=
        Token.ofText_symbol (by decide) (by decide) (by decide) rfl
      have closing :
          Token.ofText (')' :: rest) = (Token.ofText rest).map (.closing :: ·) :=
        Token.ofText_symbol (by decide) (by decide) (by decide) rfl
      rw [spelled, List.cons_append, List.append_assoc, opening,
        ih readable (by simp [Token.EndsNumber]; decide), List.singleton_append, closing]
      cases Token.ofText rest <;> simp [Except.map, expression, Expression.tokens]
  | binary operator left right ihLeft ihRight =>
      obtain ⟨_, _, leftReadable, rightReadable⟩ := readable
      have token (text : List Char) : Token.ofText (operator.symbol :: text) =
          (Token.ofText text).map (.operator operator.operator :: ·) := by
        cases operator <;> exact Token.ofText_symbol (by decide) (by decide) (by decide) rfl
      have stops : Token.isNumberChar operator.symbol = false := by cases operator <;> decide
      rw [spelled, List.append_assoc, List.cons_append,
        ihLeft leftReadable (by simpa [Token.EndsNumber] using stops), token,
        ihRight rightReadable ends]
      cases Token.ofText rest <;> simp [Except.map, expression, Expression.tokens]
  | call function arguments _ => exact readable.elim

theorem ofText_spelled_alone {tree : Tree} (readable : tree.Readable) :
    Token.ofText (tree.spelled cellText) = .ok tree.expression.tokens := by
  have tokens := @ofText_spelled cellText tree readable [] (by simp [Token.EndsNumber])
  rw [List.append_nil, Token.ofText_nil] at tokens
  simpa [Except.map] using tokens

theorem tokens_ne_nil {tree : Tree} (readable : tree.Readable) :
    tree.expression.tokens ≠ [] := by
  cases tree <;> simp [expression, Expression.tokens]

theorem valueOf_spelled {tree : Tree} (readable : tree.Readable)
    (shallow : tree.nesting ≤ groupLimit) :
    Expression.valueOf (tree.spelled cellText) =
      (do
        let x ← tree.value settings grid
        return .number (← finiteOr (.invalidExpression .notFinite) x)) := by
  have read : Expression.ofTokens tree.expression.tokens = tree.expression :=
    Expression.ofTokens_tokens (proper_expression readable)
      (by rw [nesting_expression]; exact shallow)
  unfold Expression.valueOf
  rw [ofText_spelled_alone readable]
  split
  · rename_i failed
    cases failed
  · rename_i empty
    exact absurd (Except.ok.inj empty) (tokens_ne_nil readable)
  · rename_i others _ same
    obtain rfl := Except.ok.inj same
    rw [read, @eval_expression settings grid tree readable]
    cases tree.value settings grid with
    | error error => rfl
    | ok x =>
        by_cases finite : x.isFinite = true <;>
          simp [Expression.requireFinite, finiteOr, finite]

end Worksheet.Tree
