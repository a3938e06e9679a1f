import Mathlib
import Worksheet.Formula.Calculator
import Worksheet.Proofs.Script.Reduction
import Worksheet.Proofs.Tree.Checking

/-!
# Formulas mean their trees

A formula that spells a tree is checked, resolved, reduced and read without any tree. Still its
value is the value of the tree from the bottom up: it succeeds with a number exactly when the tree
has this number as its value, and with nothing else.
-/

set_option autoImplicit false

namespace Worksheet

namespace Tree

variable {cellText : CellWord → List Char} {settings : Settings} {grid : Grid}

theorem exists_segment_of_part {tree part subtree : Tree} (inside : part.subtrees ⊆ tree.subtrees)
    (bound : part.nesting ≤ tree.nesting ∨ part ∈ tree.arguments)
    (found : ∃ segment ∈ part.segments, subtree.nesting ≤ segment.nesting) :
    ∃ segment ∈ tree.segments, subtree.nesting ≤ segment.nesting := by
  obtain ⟨segment, listed, shallow⟩ := found
  rcases List.mem_cons.mp listed with rfl | listed
  · rcases bound with bound | argument
    · exact ⟨tree, List.mem_cons_self, shallow.trans bound⟩
    · refine ⟨segment, List.mem_cons_of_mem _ (List.mem_flatMap.mpr ?_), shallow⟩
      exact ⟨tree, self_mem_subtrees tree, argument⟩
  · obtain ⟨other, deeper, argument⟩ := List.mem_flatMap.mp listed
    refine ⟨segment, List.mem_cons_of_mem _ (List.mem_flatMap.mpr ?_), shallow⟩
    exact ⟨other, inside deeper, argument⟩

/-- Signs and groups nest in no part of a tree deeper than in the whole or in one of the arguments
of its calls. -/
theorem exists_segment {tree subtree : Tree} (member : subtree ∈ tree.subtrees) :
    ∃ segment ∈ tree.segments, subtree.nesting ≤ segment.nesting := by
  have itself : ∃ segment ∈ subtree.segments, subtree.nesting ≤ segment.nesting :=
    ⟨subtree, List.mem_cons_self, le_rfl⟩
  induction tree using Tree.induction with
  | number literal =>
      obtain rfl := List.mem_singleton.mp member
      exact itself
  | cell word =>
      obtain rfl := List.mem_singleton.mp member
      exact itself
  | sign negative operand ih =>
      rcases List.mem_cons.mp member with rfl | member
      · exact itself
      · exact exists_segment_of_part (List.subset_cons_self _ _) (.inl (Nat.le_succ _)) (ih member)
  | group inner ih =>
      rcases List.mem_cons.mp member with rfl | member
      · exact itself
      · exact exists_segment_of_part (List.subset_cons_self _ _) (.inl (Nat.le_succ _)) (ih member)
  | binary operator left right ihLeft ihRight =>
      rcases List.mem_cons.mp member with rfl | member
      · exact itself
      · rcases List.mem_append.mp member with member | member
        · exact exists_segment_of_part (subtrees_subset_of_mem (by simp [subtrees, self_mem_subtrees]))
            (.inl (Nat.le_max_left _ _)) (ihLeft member)
        · exact exists_segment_of_part (subtrees_subset_of_mem (by simp [subtrees, self_mem_subtrees]))
            (.inl (Nat.le_max_right _ _)) (ihRight member)
  | call function arguments ih =>
      rcases List.mem_cons.mp member with rfl | member
      · exact itself
      · rw [subtreesAll_eq_flatMap] at member
        obtain ⟨argument, inside, member⟩ := List.mem_flatMap.mp member
        exact exists_segment_of_part (subtrees_subset_of_mem (mem_subtrees_call inside))
          (.inr inside) (ih argument inside member)

theorem sound_of_segments {tree : Tree} (proper : tree.Proper)
    (shallow : ∀ segment ∈ tree.segments, segment.nesting ≤ 254) : tree.Sound where
  proper := proper
  shallow := by
    intro subtree member
    obtain ⟨segment, listed, bound⟩ := exists_segment member
    have most := shallow segment listed
    unfold groupLimit
    omega

theorem reduce_spelled {tree : Tree} (sound : tree.Sound) {text : List Char} :
    (⟨settings, .standard⟩ : Calculator).reduce (tree.spelled (cellLiteralText grid)) = .ok text ↔
      tree.callDepth ≤ settings.nestingLimit ∧
        ∃ reducedTree, tree.reduced settings grid = .ok reducedTree ∧
          text = reducedTree.spelled cellText := by
  have finite := Script.returnsFinite_call .standard settings
  have apart := @namesApart_script grid tree [] stopsName_nil (.plain []) trivial false (by simp)
  have deep := @callDepth_script grid tree [] stopsName_nil (.plain []) trivial
  have collapses := @collapse_script cellText settings grid tree sound [] stopsName_nil
    (.plain []) trivial text
  rw [Calculator.reduce_eq_ok _ (ofChars_spelled tree grid), Script.reduce_iff_collapse finite apart,
    deep, collapses]
  simp [Script.callDepth, Script.collapse]

theorem result_spelled_eq {tree : Tree} (readable : tree.Readable)
    (shallow : tree.nesting ≤ groupLimit) :
    Calculator.result (tree.spelled cellText) =
      (fun x => Value.number (x + 0.0)) <$> tree.result settings grid := by
  have arithmetic : (tree.spelled cellText).all Expression.isArithmeticChar = true :=
    List.all_eq_true.mpr fun c member => (isArithmetic_of_mem_spelled readable member).1
  have unquoted : unquote? (tree.spelled cellText) = none := by
    cases text : tree.spelled cellText with
    | nil => rfl
    | cons c rest =>
        have first := (@isArithmetic_of_mem_spelled cellText tree readable c (by simp [text])).1
        have notQuote : c ≠ '"' := by
          rintro rfl
          revert first
          decide
        simp [unquote?, notQuote]
  rw [Calculator.result, trim_spelled readable, unquoted]
  simp only [Expression.arithmeticOf, arithmetic, if_true,
    @valueOf_spelled cellText settings grid tree readable shallow, result]
  cases tree.value settings grid with
  | error error => rfl
  | ok x =>
      simp only [Outcome.ok_bind]
      cases finiteOr (.invalidExpression .notFinite) x <;> rfl

theorem result_spelled {tree : Tree} (readable : tree.Readable) (shallow : tree.nesting ≤ groupLimit)
    {outcome : Value} :
    Calculator.result (tree.spelled cellText) = .ok outcome ↔
      ∃ x, tree.result settings grid = .ok x ∧ outcome = .number (x + 0.0) := by
  rw [@result_spelled_eq cellText settings grid tree readable shallow, Outcome.map_eq_ok]
  simp only [eq_comm]

theorem result_eq_ok_iff {tree : Tree} {x : Float} :
    tree.result settings grid = .ok x ↔
      ∃ reducedTree, tree.reduced settings grid = .ok reducedTree ∧
        reducedTree.result settings grid = .ok x := by
  simp only [result, Outcome.bind_eq_ok]
  constructor
  · rintro ⟨y, success, finite⟩
    obtain ⟨reducedTree, found, success⟩ := value_eq_ok_iff.mp success
    exact ⟨reducedTree, found, y, success, finite⟩
  · rintro ⟨reducedTree, found, y, success, finite⟩
    exact ⟨y, value_eq_ok_iff.mpr ⟨reducedTree, found, success⟩, finite⟩

end Tree

/-- A formula that spells a tree succeeds exactly when the tree has a value, and then with this
number: trees of unsigned literals, cells that read as numbers, signs, groups, arithmetic and calls
of numeric functions, with parentheses where its operands need them. Calls nest within the limit of
the settings, and signs and groups at most 254 deep in the formula and in each argument. Adding zero
takes the sign of a zero away and leaves the number equal. -/
theorem Calculator.evaluate_spelled_tree (settings : Settings)
    (lenient : settings.strictReferences = false) (grid : Grid) (tree : Tree)
    (reads : ∀ word, .cell word ∈ tree.subtrees → grid.NumericAt word)
    (within : tree.callDepth ≤ settings.nestingLimit)
    (shallow : ∀ segment ∈ tree.parenthesized.segments, segment.nesting ≤ 254) :
    (∀ outcome, (⟨settings, .standard⟩ : Calculator).evaluate
        ('=' :: tree.parenthesized.spelled CellWord.token) grid = .ok outcome ↔
          ∃ x, tree.result settings grid = .ok x ∧ outcome = .number (x + 0.0)) ∧
      ∀ x, tree.result settings grid = .ok x → (x + 0.0 == x) = true := by
  have sound := Tree.sound_of_segments tree.proper_parenthesized shallow
  have resolved := @Tree.resolve_spelled grid settings lenient tree.parenthesized
    fun word member => reads word (Tree.cell_mem_parenthesized member)
  have same : tree.parenthesized.result settings grid = tree.result settings grid := by
    rw [Tree.result, Tree.result, Tree.value_parenthesized]
  refine ⟨fun outcome => ?_, fun x success => ?_⟩
  · obtain ⟨body, clean⟩ := tree.parenthesized.check_spelled
    rw [Calculator.evaluate, Calculator.check, clean]
    simp only [body, resolved, Outcome.ok_bind]
    rw [Outcome.bind_eq_ok, ← same]
    constructor
    · rintro ⟨text, reduction, reading⟩
      obtain ⟨_, reducedTree, found, rfl⟩ :=
        (@Tree.reduce_spelled (Tree.cellLiteralText grid) settings grid _ sound text).mp reduction
      obtain ⟨readable, bounded⟩ := sound.readable_of_reduced found
      obtain ⟨x, success, rfl⟩ := (Tree.result_spelled readable bounded).mp reading
      exact ⟨x, Tree.result_eq_ok_iff.mpr ⟨reducedTree, found, success⟩, rfl⟩
    · rintro ⟨x, success, rfl⟩
      obtain ⟨reducedTree, found, success⟩ := Tree.result_eq_ok_iff.mp success
      obtain ⟨readable, bounded⟩ := sound.readable_of_reduced found
      refine ⟨reducedTree.spelled (Tree.cellLiteralText grid), ?_,
        (Tree.result_spelled readable bounded).mpr ⟨x, success, rfl⟩⟩
      rw [Tree.reduce_spelled sound, Tree.callDepth_parenthesized]
      exact ⟨within, reducedTree, found, rfl⟩
  · obtain ⟨y, _, checked⟩ := Outcome.bind_eq_ok.mp success
    obtain ⟨rfl, finite⟩ := Tree.finiteOr_eq_ok.mp checked
    exact add_zero_beq finite

/-- A sum in a product, a sign in front of a call, and a cell that is read twice. -/
theorem Calculator.evaluate_spelled_tree_of_product :
    ({} : Calculator).evaluate "=(1+A1)*-SUM(A1,2)".toList ⟨[[.number 2.0]]⟩ =
      .ok (.number (-12.0)) := by
  let word : CellWord := ⟨['A'], ['1'], by simp, by simp, rfl, rfl⟩
  let tree : Tree := .binary .multiply
    (.binary .add (.number (.ofFloat 1.0)) (.cell word))
    (.sign true (.call .sum [.cell word, .number (.ofFloat 2.0)]))
  have text : '=' :: tree.parenthesized.spelled CellWord.token = "=(1+A1)*-SUM(A1,2)".toList := by
    decide +kernel
  have reads (other : CellWord) (member : .cell other ∈ tree.subtrees) :
      Grid.NumericAt ⟨[[.number 2.0]]⟩ other := by
    have same : other = word := by
      simpa [tree, Tree.subtrees, Tree.subtreesAll] using member
    subst same
    have found : (Cell.read? word.token).bind (Grid.get? ⟨[[.number 2.0]]⟩) =
        some (.number 2.0) := by decide +kernel
    intro value held
    rw [found] at held
    cases held
    rfl
  have shallow : ∀ segment ∈ tree.parenthesized.segments, segment.nesting ≤ 254 := by
    simp [tree, Tree.parenthesized, Tree.parenthesizedAll, Tree.enclosed, Tree.strength,
      Arithmetic.strength, Tree.segments, Tree.subtrees, Tree.subtreesAll, Tree.arguments,
      Tree.nesting]
  have value : tree.result {} ⟨[[.number 2.0]]⟩ = .ok (-12.0) := by decide +kernel
  rw [← text]
  exact ((Calculator.evaluate_spelled_tree {} rfl ⟨[[.number 2.0]]⟩ tree reads (by decide)
    shallow).1 _).mpr ⟨-12.0, value, by decide +kernel⟩

end Worksheet
