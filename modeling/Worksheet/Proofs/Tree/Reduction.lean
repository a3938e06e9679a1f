import Mathlib
import Worksheet.Proofs.Number.Literal
import Worksheet.Proofs.Outcome
import Worksheet.Proofs.Tree.Reading

/-!
# Trees without cells and calls

Each cell and each call of a tree can be replaced by the numeral of its value. What is left is a
tree that reads back, and its value is the value of the tree it came from.
-/

set_option autoImplicit false

namespace Worksheet

def UnsignedLiteral.ofFloat (x : Float) : UnsignedLiteral where
  digits := unsignedDigits x
  decimal := (Numeral.magnitude? (unsignedDigits x)).getD ⟨0, 0⟩
  numeric := by
    obtain ⟨_, _, _, _, numeric⟩ := isDigits_unsignedDigits x
    exact List.all_eq_true.mpr numeric
  read := by
    obtain ⟨read, found⟩ : ∃ read, Numeral.magnitude? (unsignedDigits x) = some read := by
      unfold unsignedDigits spellMagnitude
      split
      · exact ⟨⟨0, 0⟩, rfl⟩
      · obtain ⟨read, found, _⟩ :=
          Decimal.magnitude?_positional ((Magnitude.ofFloat x).shortest .up)
        exact ⟨read, found⟩
    rw [found]
    rfl

theorem UnsignedLiteral.toFloat_ofFloat {x : Float} (finite : x.isFinite = true) :
    (UnsignedLiteral.ofFloat x).decimal.toFloat false = unsigned x := by
  obtain ⟨read, found, same⟩ := magnitude?_spellMagnitude finite
  change ((Numeral.magnitude? (unsignedDigits x)).getD ⟨0, 0⟩).toFloat false = unsigned x
  rw [unsignedDigits, found]
  exact same

namespace Tree

variable {cellText : CellWord → List Char} {settings : Settings} {grid : Grid}

def numeral (x : Float) : Tree :=
  if x < 0.0 then group (sign true (number (.ofFloat x))) else number (.ofFloat x)

theorem readable_numeral (x : Float) : (numeral x).Readable := by
  unfold numeral
  split
  · exact ⟨by simp [strength], trivial⟩
  · trivial

theorem strength_numeral (x : Float) : (numeral x).strength = 5 := by
  unfold numeral
  split <;> rfl

theorem nesting_numeral (x : Float) : (numeral x).nesting ≤ 2 := by
  unfold numeral
  split <;> simp [nesting]

theorem spelled_numeral {x : Float} (finite : x.isFinite = true) :
    (numeral (x + 0.0)).spelled cellText = numberLiteral x := by
  rcases numberLiteral_cases finite with ⟨below, literal⟩ | ⟨above, literal⟩
  · rw [numeral, if_pos below, literal]
    rfl
  · rw [numeral, if_neg above, literal]
    rfl

theorem value_numeral {x : Float} (finite : x.isFinite = true) :
    (numeral (x + 0.0)).value settings grid = .ok (x + 0.0) := by
  have finite' := isFinite_add_zero finite
  by_cases below : x + 0.0 < 0.0
  · have negative := (lt_zero_iff_isNegative finite).mp below
    rw [numeral, if_pos below]
    simp [value, UnsignedLiteral.toFloat_ofFloat finite', neg_unsigned finite' negative]
  · have positive := isNegative_of_not_lt finite below
    rw [numeral, if_neg below]
    simp [value, UnsignedLiteral.toFloat_ofFloat finite', unsigned_eq positive]

def cellNumber (grid : Grid) (word : CellWord) : Float :=
  (((Cell.read? word.token).bind grid.get?).bind Value.cellNumber?).getD 0.0

theorem cellValue_eq (grid : Grid) (word : CellWord) :
    cellValue grid word = cellNumber grid word + 0.0 :=
  rfl

theorem isFinite_cellNumber (grid : Grid) (word : CellWord) :
    (cellNumber grid word).isFinite = true := by
  unfold cellNumber
  cases found : ((Cell.read? word.token).bind grid.get?).bind Value.cellNumber? with
  | none => rfl
  | some x =>
      obtain ⟨value, _, number⟩ := Option.bind_eq_some_iff.mp found
      exact (Option.filter_eq_some_iff.mp number).2

def cellLiteralText (grid : Grid) (word : CellWord) : List Char :=
  numberLiteral (cellNumber grid word)

/-! ## Reduction -/

mutual

/-- The tree with a numeral in the place of each cell and of each call that stands in no other
call. -/
def reduced (settings : Settings) (grid : Grid) : Tree → Except FormulaError Tree
  | number literal => .ok (number literal)
  | cell word => .ok (numeral (cellValue grid word))
  | sign negative operand => do return sign negative (← operand.reduced settings grid)
  | group inner => do return group (← inner.reduced settings grid)
  | binary operator left right => do
      let left ← left.reduced settings grid
      let right ← right.reduced settings grid
      return binary operator left right
  | call function arguments => do return numeral (← value settings grid (call function arguments))

def reducedAll (settings : Settings) (grid : Grid) : List Tree → Except FormulaError (List Tree)
  | [] => .ok []
  | argument :: others => do
      let first ← argument.reduced settings grid
      let rest ← reducedAll settings grid others
      return first :: rest

end

section Reduced

variable {reducedTree : Tree}

theorem reduced_sign_eq_ok {negative : Bool} {operand : Tree} :
    (sign negative operand).reduced settings grid = .ok reducedTree ↔
      ∃ operand', operand.reduced settings grid = .ok operand' ∧
        sign negative operand' = reducedTree := by
  simp [reduced, Outcome.bind_eq_ok]

theorem reduced_group_eq_ok {inner : Tree} :
    (group inner).reduced settings grid = .ok reducedTree ↔
      ∃ inner', inner.reduced settings grid = .ok inner' ∧ group inner' = reducedTree := by
  simp [reduced, Outcome.bind_eq_ok]

theorem reduced_binary_eq_ok {operator : Arithmetic} {left right : Tree} :
    (binary operator left right).reduced settings grid = .ok reducedTree ↔
      ∃ left' right', left.reduced settings grid = .ok left' ∧
        right.reduced settings grid = .ok right' ∧ binary operator left' right' = reducedTree := by
  simp [reduced, Outcome.bind_eq_ok]

theorem reduced_call_eq_ok {function : NumericFunction} {arguments : List Tree} :
    (call function arguments).reduced settings grid = .ok reducedTree ↔
      ∃ x, (call function arguments).value settings grid = .ok x ∧ numeral x = reducedTree := by
  simp [reduced, Outcome.bind_eq_ok]

theorem reducedAll_cons_eq_ok {first : Tree} {others trees : List Tree} :
    reducedAll settings grid (first :: others) = .ok trees ↔
      ∃ head tail, first.reduced settings grid = .ok head ∧
        reducedAll settings grid others = .ok tail ∧ head :: tail = trees := by
  simp [reducedAll, Outcome.bind_eq_ok]

end Reduced

theorem value_call_eq_ok {function : NumericFunction} {arguments : List Tree} {x : Float} :
    (call function arguments).value settings grid = .ok x ↔
      ∃ numbers y, values settings grid arguments = .ok numbers ∧
        function.compute settings numbers = .ok y ∧ y.isFinite = true ∧ x = y + 0.0 := by
  rw [value]
  constructor
  · intro success
    obtain ⟨numbers, evaluated, success⟩ := Outcome.bind_eq_ok.mp success
    obtain ⟨y, computed, success⟩ := Outcome.bind_eq_ok.mp success
    obtain ⟨z, checked, success⟩ := Outcome.bind_eq_ok.mp success
    obtain ⟨rfl, finite⟩ := finiteOr_eq_ok.mp checked
    cases success
    exact ⟨numbers, y, evaluated, computed, finite, rfl⟩
  · rintro ⟨numbers, y, evaluated, computed, finite, rfl⟩
    simp [evaluated, computed, finiteOr, finite]

theorem value_of_reduced {tree reducedTree : Tree}
    (success : tree.reduced settings grid = .ok reducedTree) :
    reducedTree.value settings grid = tree.value settings grid := by
  induction tree using Tree.induction generalizing reducedTree with
  | number literal =>
      cases success
      rfl
  | cell word =>
      cases success
      rw [cellValue_eq, value_numeral (isFinite_cellNumber grid word)]
      rfl
  | sign negative operand ih =>
      obtain ⟨operand', operandReduced, rfl⟩ := reduced_sign_eq_ok.mp success
      rw [value, value, ih operandReduced]
  | group inner ih =>
      obtain ⟨inner', innerReduced, rfl⟩ := reduced_group_eq_ok.mp success
      rw [value, value, ih innerReduced]
  | binary operator left right ihLeft ihRight =>
      obtain ⟨left', right', leftReduced, rightReduced, rfl⟩ := reduced_binary_eq_ok.mp success
      rw [value, value, ihLeft leftReduced, ihRight rightReduced]
  | call function arguments _ =>
      obtain ⟨x, found, rfl⟩ := reduced_call_eq_ok.mp success
      obtain ⟨_, y, _, _, finite, rfl⟩ := value_call_eq_ok.mp found
      rw [found, value_numeral finite]

theorem exists_reduced {tree : Tree} {x : Float} (success : tree.value settings grid = .ok x) :
    ∃ reducedTree, tree.reduced settings grid = .ok reducedTree := by
  induction tree using Tree.induction generalizing x with
  | number literal => exact ⟨_, rfl⟩
  | cell word => exact ⟨_, rfl⟩
  | sign negative operand ih =>
      obtain ⟨_, operandValue, _⟩ := Outcome.bind_eq_ok.mp success
      obtain ⟨_, operandReduced⟩ := ih operandValue
      exact ⟨_, by rw [reduced, operandReduced]; rfl⟩
  | group inner ih =>
      obtain ⟨_, innerReduced⟩ := ih success
      exact ⟨_, by rw [reduced, innerReduced]; rfl⟩
  | binary operator left right ihLeft ihRight =>
      obtain ⟨_, leftValue, success⟩ := Outcome.bind_eq_ok.mp success
      obtain ⟨_, rightValue, _⟩ := Outcome.bind_eq_ok.mp success
      obtain ⟨_, leftReduced⟩ := ihLeft leftValue
      obtain ⟨_, rightReduced⟩ := ihRight rightValue
      exact ⟨_, by rw [reduced, leftReduced, rightReduced]; rfl⟩
  | call function arguments _ => exact ⟨_, by rw [reduced, success]; rfl⟩

theorem value_eq_ok_iff {tree : Tree} {x : Float} :
    tree.value settings grid = .ok x ↔
      ∃ reducedTree, tree.reduced settings grid = .ok reducedTree ∧
        reducedTree.value settings grid = .ok x := by
  constructor
  · intro success
    obtain ⟨reducedTree, found⟩ := exists_reduced success
    exact ⟨reducedTree, found, by rw [value_of_reduced found, success]⟩
  · rintro ⟨reducedTree, found, success⟩
    rw [← value_of_reduced found, success]

theorem values_eq_ok_iff {arguments : List Tree} {numbers : List Float} :
    values settings grid arguments = .ok numbers ↔
      ∃ reducedTrees, reducedAll settings grid arguments = .ok reducedTrees ∧
        values settings grid reducedTrees = .ok numbers := by
  induction arguments generalizing numbers with
  | nil => simp [values, reducedAll]
  | cons argument others ih =>
      constructor
      · intro success
        obtain ⟨x, rest, argumentValue, finite, restValues, rfl⟩ := values_cons_eq_ok.mp success
        obtain ⟨first, firstReduced, firstValue⟩ := value_eq_ok_iff.mp argumentValue
        obtain ⟨trees, treesReduced, treesValues⟩ := ih.mp restValues
        exact ⟨first :: trees,
          reducedAll_cons_eq_ok.mpr ⟨first, trees, firstReduced, treesReduced, rfl⟩,
          values_cons_eq_ok.mpr ⟨x, rest, firstValue, finite, treesValues, rfl⟩⟩
      · rintro ⟨_, reduction, success⟩
        obtain ⟨first, trees, firstReduced, treesReduced, rfl⟩ := reducedAll_cons_eq_ok.mp reduction
        obtain ⟨x, rest, firstValue, finite, treesValues, rfl⟩ := values_cons_eq_ok.mp success
        exact values_cons_eq_ok.mpr ⟨x, rest, value_eq_ok_iff.mpr ⟨first, firstReduced, firstValue⟩,
          finite, ih.mpr ⟨trees, treesReduced, treesValues⟩, rfl⟩

theorem reduced_call_iff {function : NumericFunction} {arguments : List Tree} {reducedTree : Tree} :
    (call function arguments).reduced settings grid = .ok reducedTree ↔
      ∃ trees, reducedAll settings grid arguments = .ok trees ∧
        ∃ numbers x, values settings grid trees = .ok numbers ∧
          function.compute settings numbers = .ok x ∧ x.isFinite = true ∧
          numeral (x + 0.0) = reducedTree := by
  rw [reduced_call_eq_ok]
  constructor
  · rintro ⟨_, whole, rfl⟩
    obtain ⟨numbers, x, evaluated, computed, finite, rfl⟩ := value_call_eq_ok.mp whole
    obtain ⟨trees, found, evaluated⟩ := values_eq_ok_iff.mp evaluated
    exact ⟨trees, found, numbers, x, evaluated, computed, finite, rfl⟩
  · rintro ⟨trees, found, numbers, x, evaluated, computed, finite, rfl⟩
    have argumentValues := values_eq_ok_iff.mpr ⟨trees, found, evaluated⟩
    exact ⟨_, value_call_eq_ok.mpr ⟨numbers, x, argumentValues, computed, finite, rfl⟩, rfl⟩

theorem strength_of_reduced {tree reducedTree : Tree}
    (success : tree.reduced settings grid = .ok reducedTree) :
    reducedTree.strength = tree.strength := by
  cases tree with
  | number literal =>
      cases success
      rfl
  | cell word =>
      cases success
      exact strength_numeral _
  | sign negative operand =>
      obtain ⟨_, _, rfl⟩ := reduced_sign_eq_ok.mp success
      rfl
  | group inner =>
      obtain ⟨_, _, rfl⟩ := reduced_group_eq_ok.mp success
      rfl
  | binary operator left right =>
      obtain ⟨_, _, _, _, rfl⟩ := reduced_binary_eq_ok.mp success
      rfl
  | call function arguments =>
      obtain ⟨_, _, rfl⟩ := reduced_call_eq_ok.mp success
      exact strength_numeral _

theorem Proper.of_mem {tree subtree : Tree} (proper : tree.Proper)
    (member : subtree ∈ tree.subtrees) : subtree.Proper :=
  fun other inside => proper other (subtrees_subset_of_mem member inside)

/-- A reduced tree reads back, and its numerals nest at most two deeper than the tree. -/
theorem readable_of_reduced {tree reducedTree : Tree} (proper : tree.Proper)
    (success : tree.reduced settings grid = .ok reducedTree) :
    reducedTree.Readable ∧ reducedTree.nesting ≤ tree.nesting + 2 := by
  -- the two more levels are the group and the sign of a negative number
  induction tree using Tree.induction generalizing reducedTree with
  | number literal =>
      cases success
      exact ⟨trivial, by simp [nesting]⟩
  | cell word =>
      cases success
      exact ⟨readable_numeral _, (nesting_numeral _).trans (Nat.le_add_left 2 _)⟩
  | sign negative operand ih =>
      obtain ⟨operand', operandReduced, rfl⟩ := reduced_sign_eq_ok.mp success
      obtain ⟨readable, shallow⟩ :=
        ih (proper.of_mem (by simp [subtrees, self_mem_subtrees])) operandReduced
      have tight : 4 ≤ operand.strength := proper _ (self_mem_subtrees _)
      refine ⟨⟨?_, readable⟩, ?_⟩
      · rw [strength_of_reduced operandReduced]
        exact tight
      · simp only [nesting]
        omega
  | group inner ih =>
      obtain ⟨inner', innerReduced, rfl⟩ := reduced_group_eq_ok.mp success
      obtain ⟨readable, shallow⟩ :=
        ih (proper.of_mem (by simp [subtrees, self_mem_subtrees])) innerReduced
      refine ⟨readable, ?_⟩
      simp only [nesting]
      omega
  | binary operator left right ihLeft ihRight =>
      obtain ⟨left', right', leftReduced, rightReduced, rfl⟩ := reduced_binary_eq_ok.mp success
      obtain ⟨leftReadable, leftShallow⟩ :=
        ihLeft (proper.of_mem (by simp [subtrees, self_mem_subtrees])) leftReduced
      obtain ⟨rightReadable, rightShallow⟩ :=
        ihRight (proper.of_mem (by simp [subtrees, self_mem_subtrees])) rightReduced
      have tight : operator.strength ≤ left.strength ∧ operator.strength < right.strength :=
        proper _ (self_mem_subtrees _)
      refine ⟨⟨?_, ?_, leftReadable, rightReadable⟩, ?_⟩
      · rw [strength_of_reduced leftReduced]
        exact tight.1
      · rw [strength_of_reduced rightReduced]
        exact tight.2
      · simp only [nesting]
        omega
  | call function arguments _ =>
      obtain ⟨_, _, rfl⟩ := reduced_call_eq_ok.mp success
      exact ⟨readable_numeral _, (nesting_numeral _).trans (Nat.le_add_left 2 _)⟩

end Tree

end Worksheet
