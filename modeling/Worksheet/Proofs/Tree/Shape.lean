import Mathlib
import Worksheet.Proofs.Outcome
import Worksheet.Proofs.Tree.Basic

/-!
# Trees and their parentheses

Putting parentheses into a tree changes neither its value nor its calls nor its cells, and
afterwards every operand binds tightly enough for its place.
-/

set_option autoImplicit false

namespace Worksheet.Tree

variable {settings : Settings} {grid : Grid}

theorem parenthesizedAll_eq_map (arguments : List Tree) :
    parenthesizedAll arguments = arguments.map parenthesized := by
  induction arguments with
  | nil => rfl
  | cons argument others ih => rw [parenthesizedAll, ih, List.map_cons]

theorem subtreesAll_eq_flatMap (arguments : List Tree) :
    subtreesAll arguments = arguments.flatMap subtrees := by
  induction arguments with
  | nil => rfl
  | cons argument others ih => rw [subtreesAll, ih, List.flatMap_cons]

theorem values_congr {arguments others : List Tree}
    (same : List.Forall₂ (fun argument other =>
      argument.value settings grid = other.value settings grid) arguments others) :
    values settings grid arguments = values settings grid others := by
  induction same with
  | nil => rfl
  | cons head _ ih => rw [values, values, head, ih]

theorem finiteOr_eq_ok {error : FormulaError} {x y : Float} :
    finiteOr error x = .ok y ↔ x = y ∧ x.isFinite = true := by
  unfold finiteOr
  split
  · rename_i finite
    simp [finite]
  · rename_i infinite
    simp [infinite]

theorem values_cons_eq_ok {settings : Settings} {grid : Grid} {argument : Tree} {others : List Tree}
    {numbers : List Float} :
    values settings grid (argument :: others) = .ok numbers ↔
      ∃ x rest, argument.value settings grid = .ok x ∧ x.isFinite = true ∧
        values settings grid others = .ok rest ∧ x :: rest = numbers := by
  rw [values]
  constructor
  · intro success
    obtain ⟨x, evaluated, success⟩ := Outcome.bind_eq_ok.mp success
    obtain ⟨y, checked, success⟩ := Outcome.bind_eq_ok.mp success
    obtain ⟨rest, others, success⟩ := Outcome.bind_eq_ok.mp success
    obtain ⟨rfl, finite⟩ := finiteOr_eq_ok.mp checked
    exact ⟨x, rest, evaluated, finite, others, Except.ok.inj success⟩
  · rintro ⟨x, rest, evaluated, finite, others, rfl⟩
    simp [evaluated, finiteOr, finite, others]

theorem self_mem_subtrees (tree : Tree) : tree ∈ tree.subtrees := by
  cases tree <;> simp [subtrees]

theorem subtrees_subset_of_mem {tree subtree : Tree} (member : subtree ∈ tree.subtrees) :
    subtree.subtrees ⊆ tree.subtrees := by
  induction tree using Tree.induction with
  | number literal => simp_all [subtrees]
  | cell word => simp_all [subtrees]
  | sign negative operand ih =>
      rcases List.mem_cons.mp member with rfl | member
      · exact List.Subset.refl _
      · exact List.subset_cons_of_subset _ (ih member)
  | group inner ih =>
      rcases List.mem_cons.mp member with rfl | member
      · exact List.Subset.refl _
      · exact List.subset_cons_of_subset _ (ih member)
  | binary operator left right ihLeft ihRight =>
      rcases List.mem_cons.mp member with rfl | member
      · exact List.Subset.refl _
      · refine List.subset_cons_of_subset _ ?_
        rcases List.mem_append.mp member with member | member
        · exact List.subset_append_of_subset_left _ (ihLeft member)
        · exact List.subset_append_of_subset_right _ (ihRight member)
  | call function arguments ih =>
      rcases List.mem_cons.mp member with rfl | member
      · exact List.Subset.refl _
      · refine List.subset_cons_of_subset _ ?_
        rw [subtreesAll_eq_flatMap] at member ⊢
        obtain ⟨argument, inside, member⟩ := List.mem_flatMap.mp member
        intro other deeper
        exact List.mem_flatMap.mpr ⟨argument, inside, ih argument inside member deeper⟩

def Tight : Tree → Prop
  | sign _ operand => 4 ≤ operand.strength
  | binary operator left right =>
      operator.strength ≤ left.strength ∧ operator.strength < right.strength
  | _ => True

def Proper (tree : Tree) : Prop :=
  ∀ subtree ∈ tree.subtrees, subtree.Tight

theorem le_strength_enclosed {required : Nat} (most : required ≤ 5) (tree : Tree) :
    required ≤ (tree.enclosed required).strength := by
  unfold enclosed
  split
  · assumption
  · exact most

theorem Proper.enclosed {tree : Tree} (proper : tree.Proper) (required : Nat) :
    (tree.enclosed required).Proper := by
  unfold Tree.enclosed
  split
  · exact proper
  · exact List.forall_mem_cons.mpr ⟨trivial, proper⟩

theorem value_enclosed (required : Nat) (tree : Tree) :
    (tree.enclosed required).value settings grid = tree.value settings grid := by
  unfold enclosed
  split <;> rfl

theorem callDepth_enclosed (required : Nat) (tree : Tree) :
    (tree.enclosed required).callDepth = tree.callDepth := by
  unfold enclosed
  split <;> rfl

theorem cell_mem_enclosed {required : Nat} {tree : Tree} {word : CellWord}
    (member : cell word ∈ (tree.enclosed required).subtrees) : cell word ∈ tree.subtrees := by
  unfold enclosed at member
  split at member
  · exact member
  · simpa [subtrees] using member

theorem proper_parenthesized (tree : Tree) : tree.parenthesized.Proper := by
  induction tree using Tree.induction with
  | number literal => simp [parenthesized, Proper, subtrees, Tight]
  | cell word => simp [parenthesized, Proper, subtrees, Tight]
  | sign negative operand ih =>
      exact List.forall_mem_cons.mpr ⟨le_strength_enclosed (by decide) _, ih.enclosed 4⟩
  | group inner ih => exact List.forall_mem_cons.mpr ⟨trivial, ih⟩
  | binary operator left right ihLeft ihRight =>
      have bound := operator.strength_le
      refine List.forall_mem_cons.mpr ⟨⟨?_, ?_⟩, List.forall_mem_append.mpr
        ⟨ihLeft.enclosed _, ihRight.enclosed _⟩⟩
      · exact le_strength_enclosed (by omega) _
      · exact le_strength_enclosed (by omega) _
  | call function arguments ih =>
      refine List.forall_mem_cons.mpr ⟨trivial, fun subtree member => ?_⟩
      rw [subtreesAll_eq_flatMap, parenthesizedAll_eq_map, List.flatMap_map] at member
      obtain ⟨argument, inside, member⟩ := List.mem_flatMap.mp member
      exact ih argument inside subtree member

theorem value_parenthesized (tree : Tree) :
    tree.parenthesized.value settings grid = tree.value settings grid := by
  induction tree using Tree.induction with
  | number literal => rfl
  | cell word => rfl
  | sign negative operand ih => rw [parenthesized, value, value, value_enclosed, ih]
  | group inner ih => rw [parenthesized, value, value, ih]
  | binary operator left right ihLeft ihRight =>
      rw [parenthesized, value, value, value_enclosed, value_enclosed, ihLeft, ihRight]
  | call function arguments ih =>
      rw [parenthesized, value, value, parenthesizedAll_eq_map]
      have same : values settings grid (arguments.map parenthesized) =
          values settings grid arguments := by
        refine values_congr ?_
        rw [List.forall₂_map_left_iff, List.forall₂_same]
        exact ih
      rw [same]

theorem callDepth_parenthesized (tree : Tree) :
    tree.parenthesized.callDepth = tree.callDepth := by
  induction tree using Tree.induction with
  | number literal => rfl
  | cell word => rfl
  | sign negative operand ih => rw [parenthesized, callDepth, callDepth, callDepth_enclosed, ih]
  | group inner ih => rw [parenthesized, callDepth, callDepth, ih]
  | binary operator left right ihLeft ihRight =>
      rw [parenthesized, callDepth, callDepth, callDepth_enclosed, callDepth_enclosed, ihLeft,
        ihRight]
  | call function arguments ih =>
      rw [parenthesized, callDepth, callDepth]
      congr 1
      induction arguments with
      | nil => rfl
      | cons argument others ihAll =>
          rw [parenthesizedAll, callDepthAll, callDepthAll, ih argument List.mem_cons_self,
            ihAll fun other member => ih other (List.mem_cons_of_mem _ member)]

theorem cell_mem_parenthesized {tree : Tree} {word : CellWord}
    (member : cell word ∈ tree.parenthesized.subtrees) : cell word ∈ tree.subtrees := by
  induction tree using Tree.induction with
  | number literal => exact member
  | cell other => exact member
  | sign negative operand ih =>
      simp only [parenthesized, subtrees, List.mem_cons, reduceCtorEq, false_or] at member ⊢
      exact ih (cell_mem_enclosed member)
  | group inner ih =>
      simp only [parenthesized, subtrees, List.mem_cons, reduceCtorEq, false_or] at member ⊢
      exact ih member
  | binary operator left right ihLeft ihRight =>
      simp only [parenthesized, subtrees, List.mem_cons, reduceCtorEq, false_or,
        List.mem_append] at member ⊢
      exact member.imp (fun found => ihLeft (cell_mem_enclosed found))
        fun found => ihRight (cell_mem_enclosed found)
  | call function arguments ih =>
      simp only [parenthesized, subtrees, List.mem_cons, reduceCtorEq, false_or,
        subtreesAll_eq_flatMap, parenthesizedAll_eq_map, List.flatMap_map, List.mem_flatMap]
        at member ⊢
      obtain ⟨argument, inside, member⟩ := member
      exact ⟨argument, inside, ih argument inside member⟩

end Worksheet.Tree
