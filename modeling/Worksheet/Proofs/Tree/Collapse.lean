import Mathlib
import Worksheet.Proofs.Tree.Script

/-!
# Collapsing the script of a tree

The calls of the script of a tree nest as deep as those of the tree, and the script collapses to
the text of the reduced tree exactly when the tree can be reduced.
-/

set_option autoImplicit false

namespace Worksheet.Tree

variable {cellText : CellWord → List Char} {settings : Settings} {grid : Grid}

theorem callDepth_script (tree : Tree) {lead : List Char} (stops : StopsName lead.reverse)
    {rest : Script} (apart : rest.NamesApart true) :
    (tree.script grid lead rest).callDepth = max tree.callDepth rest.callDepth := by
  induction tree using Tree.induction generalizing lead rest with
  | number literal =>
      rw [script, Script.callDepth_prepend
        (Script.keepsName_of_apart (callName?_append_digits literal stops) apart), callDepth,
        Nat.zero_max]
  | cell word =>
      have call : Script.CallValue := fun _ _ => .ok (.text [])
      rw [script, callDepth, Nat.zero_max]
      exact (@Script.splice_spec call _ stops _ (isFinite_cell grid word) _ apart false).2.1
  | sign negative operand ih => exact ih (stopsName_signSymbol lead negative) apart
  | group inner ih =>
      have nameless : Script.callName? lead = none := stops.nameBehind?_eq
      have deep := @ih [] stopsName_nil (.plain []) trivial
      simp [script, Script.callDepth, nameless, deep, callDepth]
  | binary operator left right ihLeft ihRight =>
      have behind := @namesApart_script grid right _ (stopsName_symbol operator) _ apart true
        (by simp)
      rw [script, ihLeft stops behind, ihRight (stopsName_symbol operator) apart, callDepth,
        Nat.max_assoc]
  | call function arguments ih =>
      have all {lead : List Char} (stops : StopsName lead.reverse) :
          (scriptAll grid lead arguments).callDepth = callDepthAll arguments := by
        induction arguments generalizing lead with
        | nil => rfl
        | cons first others ihAll =>
            cases others with
            | nil =>
                have deep := @ih first List.mem_cons_self lead stops (.plain []) trivial
                simp [scriptAll, deep, callDepthAll, Script.callDepth]
            | cons second others =>
                have behind := @namesApart_scriptAll grid (second :: others) [','] stopsName_comma
                  true (by simp)
                rw [scriptAll_cons_cons, ih first List.mem_cons_self stops behind, callDepthAll,
                  ihAll (fun tree member => ih tree (List.mem_cons_of_mem _ member))
                    stopsName_comma]
      have named := (function.callName?_append_name stops).1
      simp [script, Script.callDepth, named, @all [] stopsName_nil, callDepth]

theorem exists_of_mem_reducedAll {arguments reducedTrees : List Tree}
    (success : reducedAll settings grid arguments = .ok reducedTrees) :
    ∀ reducedTree ∈ reducedTrees, ∃ argument ∈ arguments,
      argument.reduced settings grid = .ok reducedTree := by
  induction arguments generalizing reducedTrees with
  | nil =>
      cases success
      simp
  | cons argument others ih =>
      obtain ⟨first, rest, firstReduced, restReduced, rfl⟩ := reducedAll_cons_eq_ok.mp success
      intro reducedTree member
      rcases List.mem_cons.mp member with rfl | member
      · exact ⟨argument, List.mem_cons_self, firstReduced⟩
      · obtain ⟨other, inside, found⟩ := ih restReduced reducedTree member
        exact ⟨other, List.mem_cons_of_mem _ inside, found⟩

/-- Every operand binds tightly enough, and signs and groups nest so little that two more are not
too many. -/
structure Sound (tree : Tree) : Prop where
  proper : tree.Proper
  shallow : ∀ subtree ∈ tree.subtrees, subtree.nesting + 2 ≤ groupLimit

theorem Sound.of_mem {tree subtree : Tree} (sound : tree.Sound)
    (member : subtree ∈ tree.subtrees) : subtree.Sound where
  proper := sound.proper.of_mem member
  shallow := fun other inside => sound.shallow other (subtrees_subset_of_mem member inside)

theorem mem_subtrees_call {function : NumericFunction} {arguments : List Tree} {argument : Tree}
    (member : argument ∈ arguments) : argument ∈ (call function arguments).subtrees := by
  rw [subtrees, subtreesAll_eq_flatMap]
  exact List.mem_cons_of_mem _ (List.mem_flatMap.mpr ⟨argument, member, self_mem_subtrees argument⟩)

theorem Sound.readable_of_reduced {tree reducedTree : Tree} (sound : tree.Sound)
    (success : tree.reduced settings grid = .ok reducedTree) :
    reducedTree.Readable ∧ reducedTree.nesting ≤ groupLimit := by
  obtain ⟨readable, deeper⟩ := Tree.readable_of_reduced sound.proper success
  exact ⟨readable, deeper.trans (sound.shallow tree (self_mem_subtrees tree))⟩

/-- The script of a call without its arguments: the call is replaced by its literal, once the text
of its arguments is known. -/
theorem collapse_call {call : Script.CallValue} {function : NumericFunction} {lead : List Char}
    (stops : StopsName lead.reverse) {inner rest : Script} {text : List Char} :
    (Script.group (lead ++ function.name) inner rest).collapse call = .ok text ↔
      ∃ argument value tail, inner.collapse call = .ok argument ∧
        call function.name (Arguments.split argument) = .ok value ∧
        rest.collapse call = .ok tail ∧ text = lead ++ value.literal ++ tail := by
  obtain ⟨named, front⟩ := function.callName?_append_name stops
  rw [Script.collapse, named]
  constructor
  · intro success
    obtain ⟨argument, innerText, success⟩ := Outcome.bind_eq_ok.mp success
    obtain ⟨value, called, success⟩ := Outcome.bind_eq_ok.mp success
    obtain ⟨tail, restText, success⟩ := Outcome.bind_eq_ok.mp success
    rw [front] at success
    cases success
    exact ⟨argument, value, tail, innerText, called, restText, rfl⟩
  · rintro ⟨argument, value, tail, innerText, called, restText, rfl⟩
    simp [innerText, called, restText, front]

theorem collapse_group {call : Script.CallValue} {lead : List Char}
    (stops : StopsName lead.reverse) {inner rest : Script} {text : List Char} :
    (Script.group lead inner rest).collapse call = .ok text ↔
      ∃ argument tail, inner.collapse call = .ok argument ∧
        rest.collapse call = .ok tail ∧ text = lead ++ '(' :: argument ++ ')' :: tail := by
  have nameless : Script.callName? lead = none := stops.nameBehind?_eq
  rw [Script.collapse, nameless]
  constructor
  · intro success
    obtain ⟨argument, innerText, success⟩ := Outcome.bind_eq_ok.mp success
    obtain ⟨tail, restText, success⟩ := Outcome.bind_eq_ok.mp success
    cases success
    exact ⟨argument, tail, innerText, restText, rfl⟩
  · rintro ⟨argument, tail, innerText, restText, rfl⟩
    simp [innerText, restText]

/-- The arguments of a call collapse to the texts of the reduced arguments when each of them does. -/
theorem collapse_scriptAll_of {call : Script.CallValue} {arguments : List Tree}
    (each : ∀ argument ∈ arguments, ∀ {lead : List Char}, StopsName lead.reverse →
      ∀ {rest : Script}, rest.NamesApart true → ∀ {text : List Char},
        (argument.script grid lead rest).collapse call = .ok text ↔
          ∃ reducedTree tail, argument.reduced settings grid = .ok reducedTree ∧
            rest.collapse call = .ok tail ∧ text = lead ++ reducedTree.spelled cellText ++ tail)
    {lead : List Char} (stops : StopsName lead.reverse) {text : List Char} :
    (scriptAll grid lead arguments).collapse call = .ok text ↔
      ∃ trees, reducedAll settings grid arguments = .ok trees ∧
        text = lead ++ spelledAll cellText trees := by
  induction arguments generalizing lead text with
  | nil => simp [scriptAll, Script.collapse, reducedAll, spelledAll, eq_comm]
  | cons first others ih =>
      have firstText {lead : List Char} := @each first List.mem_cons_self lead
      simp only [reducedAll_cons_eq_ok]
      cases others with
      | nil =>
          have whole := @firstText lead stops (.plain []) trivial text
          simp only [scriptAll, whole, Script.collapse, Except.ok.injEq, reducedAll]
          constructor
          · rintro ⟨head, _, headReduced, rfl, rfl⟩
            exact ⟨_, ⟨head, [], headReduced, rfl, rfl⟩, by simp [spelledAll]⟩
          · rintro ⟨_, ⟨head, _, headReduced, rfl, rfl⟩, rfl⟩
            exact ⟨head, [], headReduced, rfl, by simp [spelledAll]⟩
      | cons second others =>
          have behind := @namesApart_scriptAll grid (second :: others) [','] stopsName_comma
            true (by simp)
          have tailText {text : List Char} :=
            @ih (fun tree member => each tree (List.mem_cons_of_mem _ member)) [','] stopsName_comma
              text
          rw [scriptAll_cons_cons, firstText stops behind]
          simp only [tailText, reducedAll_cons_eq_ok]
          constructor
          · rintro ⟨head, _, headReduced, ⟨_, ⟨next, tail, nextReduced, tailReduced, rfl⟩, rfl⟩, rfl⟩
            exact ⟨_, ⟨head, _, headReduced, ⟨next, tail, nextReduced, tailReduced, rfl⟩, rfl⟩,
              by simp [spelledAll_cons_cons]⟩
          · rintro ⟨_, ⟨head, _, headReduced, ⟨next, tail, nextReduced, tailReduced, rfl⟩, rfl⟩, rfl⟩
            exact ⟨head, _, headReduced, ⟨_, ⟨next, tail, nextReduced, tailReduced, rfl⟩, rfl⟩,
              by simp [spelledAll_cons_cons]⟩

/-- The script of a tree collapses to the text of the reduced tree. -/
theorem collapse_script {tree : Tree} (sound : tree.Sound) {lead : List Char}
    (stops : StopsName lead.reverse) {rest : Script} (apart : rest.NamesApart true)
    {text : List Char} :
    (tree.script grid lead rest).collapse (Registry.standard.call settings) = .ok text ↔
      ∃ reducedTree tail, tree.reduced settings grid = .ok reducedTree ∧
        rest.collapse (Registry.standard.call settings) = .ok tail ∧
        text = lead ++ reducedTree.spelled cellText ++ tail := by
  -- the script of a tree ends in any script `rest` whose first name the tree does not join
  induction tree using Tree.induction generalizing lead rest text with
  | number literal =>
      rw [script, Script.collapse_prepend
        (Script.keepsName_of_apart (callName?_append_digits literal stops) apart),
        Outcome.map_eq_ok]
      simp [reduced, spelled, eq_comm]
  | cell word =>
      rw [script, (Script.splice_spec stops (isFinite_cell grid word) apart false).1,
        Outcome.map_eq_ok]
      simp [reduced, cellValue_eq, spelled_numeral (isFinite_cellNumber grid word), Value.literal,
        eq_comm]
  | sign negative operand ih =>
      rw [script, ih (sound.of_mem (by simp [subtrees, self_mem_subtrees]))
        (stopsName_signSymbol lead negative) apart]
      simp only [reduced_sign_eq_ok]
      constructor
      · rintro ⟨operand', tail, operandReduced, restText, rfl⟩
        exact ⟨_, tail, ⟨operand', operandReduced, rfl⟩, restText, by simp [spelled]⟩
      · rintro ⟨_, tail, ⟨operand', operandReduced, rfl⟩, restText, rfl⟩
        exact ⟨operand', tail, operandReduced, restText, by simp [spelled]⟩
  | group inner ih =>
      have innerText {text : List Char} :=
        @ih (sound.of_mem (by simp [subtrees, self_mem_subtrees])) [] stopsName_nil (.plain [])
          trivial text
      rw [script, collapse_group stops]
      simp only [innerText, Script.collapse, Except.ok.injEq, reduced_group_eq_ok]
      constructor
      · rintro ⟨_, tail, ⟨inner', _, innerReduced, rfl, rfl⟩, restText, rfl⟩
        exact ⟨_, tail, ⟨inner', innerReduced, rfl⟩, restText, by simp [spelled]⟩
      · rintro ⟨_, tail, ⟨inner', innerReduced, rfl⟩, restText, rfl⟩
        exact ⟨_, tail, ⟨inner', [], innerReduced, rfl, rfl⟩, restText, by simp [spelled]⟩
  | binary operator left right ihLeft ihRight =>
      have behind := @namesApart_script grid right _ (stopsName_symbol operator) _ apart true
        (by simp)
      rw [script, ihLeft (sound.of_mem (by simp [subtrees, self_mem_subtrees])) stops behind]
      simp only [ihRight (sound.of_mem (by simp [subtrees, self_mem_subtrees]))
        (stopsName_symbol operator) apart, reduced_binary_eq_ok]
      constructor
      · rintro ⟨left', _, leftReduced, ⟨right', tail, rightReduced, restText, rfl⟩, rfl⟩
        exact ⟨_, tail, ⟨left', right', leftReduced, rightReduced, rfl⟩, restText,
          by simp [spelled]⟩
      · rintro ⟨_, tail, ⟨left', right', leftReduced, rightReduced, rfl⟩, restText, rfl⟩
        exact ⟨left', _, leftReduced, ⟨right', tail, rightReduced, restText, rfl⟩,
          by simp [spelled]⟩
  | call function arguments ih =>
      have argumentsText {text : List Char} :=
        @collapse_scriptAll_of cellText settings grid (Registry.standard.call settings) arguments
          (fun argument member => ih argument member (sound.of_mem (mem_subtrees_call member)))
          [] stopsName_nil text
      have called {trees : List Tree} (found : reducedAll settings grid arguments = .ok trees)
          {outcome : Value} :=
        @call_spelledAll cellText settings grid function trees outcome fun tree member => by
          obtain ⟨argument, inside, reduction⟩ := exists_of_mem_reducedAll found tree member
          exact (sound.of_mem (mem_subtrees_call inside)).readable_of_reduced reduction
      rw [script, collapse_call stops]
      simp only [argumentsText, List.nil_append, reduced_call_iff]
      constructor
      · rintro ⟨_, value, tail, ⟨trees, found, rfl⟩, outcome, restText, rfl⟩
        obtain ⟨numbers, x, evaluated, computed, finite, rfl⟩ := (called found).mp outcome
        exact ⟨_, tail, ⟨trees, found, numbers, x, evaluated, computed, finite, rfl⟩, restText,
          by rw [spelled_numeral finite, Value.literal]⟩
      · rintro ⟨_, tail, ⟨trees, found, numbers, x, evaluated, computed, finite, rfl⟩, restText, rfl⟩
        exact ⟨_, .number x, tail, ⟨trees, found, rfl⟩,
          (called found).mpr ⟨numbers, x, evaluated, computed, finite, rfl⟩, restText,
          by rw [spelled_numeral finite, Value.literal]⟩

end Worksheet.Tree
