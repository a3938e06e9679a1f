import Mathlib
import Worksheet.Proofs.Formula.Check
import Worksheet.Proofs.Tree.Resolution

/-!
# Checking the text of a tree

A formula that spells a tree has nothing wrong with it: its body is the text of the tree, the
parentheses match, there are no literals in it, and every name that it calls is in the library.
-/

set_option autoImplicit false

namespace Worksheet

theorem calledNames_append (behind first second : List Char) :
    calledNames behind (first ++ second) =
      calledNames behind first ++ calledNames (first.reverse ++ behind) second := by
  induction first generalizing behind with
  | nil => rfl
  | cons c rest ih => simp [calledNames, ih]

theorem calledNames_of_plain (behind : List Char) {text : List Char}
    (plain : ∀ c ∈ text, c ≠ '(') : calledNames behind text = [] := by
  induction text generalizing behind with
  | nil => rfl
  | cons c rest ih =>
      rw [calledNames, if_neg (plain c List.mem_cons_self), List.nil_append]
      exact ih _ fun d member => plain d (List.mem_cons_of_mem _ member)

theorem maskFrom_of_plain {text : List Char} (noQuote : '"' ∉ text) :
    maskFrom false text = text := by
  induction text with
  | nil => rfl
  | cons c rest ih =>
      simp only [List.mem_cons, not_or] at noQuote
      simp [maskFrom, Ne.symm noQuote.1, ih noQuote.2]

namespace Tree

def CallsFunctions (behind text : List Char) : Prop :=
  ∀ name ∈ calledNames behind text, ∃ function : NumericFunction, name = function.name

theorem CallsFunctions.append {behind first second : List Char}
    (left : CallsFunctions behind first) (right : CallsFunctions (first.reverse ++ behind) second) :
    CallsFunctions behind (first ++ second) := by
  intro name member
  rw [calledNames_append, List.mem_append] at member
  exact member.elim (left name) (right name)

theorem callsFunctions_of_plain (behind : List Char) {text : List Char}
    (plain : ∀ c ∈ text, c ≠ '(') : CallsFunctions behind text := by
  simp [CallsFunctions, calledNames_of_plain behind plain]

theorem CallsFunctions.opening {behind rest : List Char} (stops : StopsName behind)
    (calls : CallsFunctions ('(' :: behind) rest) : CallsFunctions behind ('(' :: rest) := by
  intro name member
  have nameless : wholeNameBehind? behind = none := by
    rw [wholeNameBehind?, stops.nameBehind?_eq]
    rfl
  simp only [calledNames, if_true, nameless, Option.toList_none, List.nil_append] at member
  exact calls name member

theorem CallsFunctions.call {behind rest : List Char} (stops : StopsName behind)
    (function : NumericFunction)
    (calls : CallsFunctions ('(' :: (function.name.reverse ++ behind)) rest) :
    CallsFunctions (function.name.reverse ++ behind) ('(' :: rest) := by
  intro name member
  have named : nameBehind? (function.name.reverse ++ behind) = some function.name := by
    rw [nameBehind?_append_of_stops _ stops, function.nameBehind?_name]
  simp only [calledNames, if_true, wholeNameBehind?, named, List.mem_append] at member
  rcases member with member | member
  · rw [Option.mem_toList] at member
    exact ⟨function, (Option.some.inj (Option.filter_eq_some_iff.mp member).1).symm⟩
  · exact calls name member

theorem noOpening_signSymbol (negative : Bool) : ∀ c ∈ [signSymbol negative], c ≠ '(' := by
  cases negative <;> simp [signSymbol]

theorem noOpening_symbol (operator : Arithmetic) : ∀ c ∈ [operator.symbol], c ≠ '(' := by
  cases operator <;> simp [Arithmetic.symbol]

theorem callsFunctions_spelled (tree : Tree) {behind : List Char} (stops : StopsName behind) :
    CallsFunctions behind (tree.spelled CellWord.token) := by
  induction tree using Tree.induction generalizing behind with
  | number literal =>
      exact callsFunctions_of_plain behind fun c member =>
        (literal.isPlain_digits c member).2.1
  | cell word =>
      exact callsFunctions_of_plain behind fun c member =>
        (word.isPlain_token c member).2.1
  | sign negative operand ih =>
      exact (callsFunctions_of_plain behind (noOpening_signSymbol negative)).append
        (ih (stopsName_cons (by cases negative <;> decide) _))
  | group inner ih =>
      refine CallsFunctions.opening stops ((ih (stopsName_opening behind)).append ?_)
      exact callsFunctions_of_plain _ (by simp)
  | binary operator left right ihLeft ihRight =>
      refine (ihLeft stops).append ?_
      exact (callsFunctions_of_plain _ (noOpening_symbol operator)).append
        (ihRight (stopsName_cons (by cases operator <;> decide) _))
  | call function arguments ih =>
      have all {behind : List Char} (stops : StopsName behind) :
          CallsFunctions behind (spelledAll CellWord.token arguments) := by
        induction arguments generalizing behind with
        | nil => exact callsFunctions_of_plain behind (by simp [spelledAll])
        | cons first others ihAll =>
            cases others with
            | nil => exact ih first List.mem_cons_self stops
            | cons second others =>
                have tail := @ihAll (fun tree member => ih tree (List.mem_cons_of_mem _ member))
                  (',' :: ((first.spelled CellWord.token).reverse ++ behind))
                  (stopsName_cons (by decide) _)
                have comma := callsFunctions_of_plain
                  ((first.spelled CellWord.token).reverse ++ behind)
                  (by simp : ∀ c ∈ [','], c ≠ '(')
                rw [spelledAll_cons_cons]
                exact (ih first List.mem_cons_self stops).append (comma.append tail)
      have name := @callsFunctions_of_plain behind function.name fun c member =>
        (function.isPlain_name c member).2.1
      refine name.append (CallsFunctions.call stops function ((all (stopsName_opening _)).append ?_))
      exact callsFunctions_of_plain _ (by simp)

theorem unknownFunctions_of_calls {text : List Char} (calls : CallsFunctions [] text) :
    Formula.unknownFunctions .standard text = [] := by
  have none : ((calledNames [] text).map capitals).filter
      (fun name => !Registry.standard.contains name) = [] := by
    rw [List.filter_eq_nil_iff]
    intro name member
    obtain ⟨called, inside, rfl⟩ := List.mem_map.mp member
    obtain ⟨function, rfl⟩ := calls called inside
    obtain ⟨entry, found, _⟩ := function.get?_standard
    simp [Registry.contains, function.capitals_name, found]
  rw [Formula.unknownFunctions, none]
  rfl

end Tree

/-- There is nothing wrong with a text that matches its parentheses, holds no literal and calls
numeric functions only. -/
theorem Formula.check_of_calls {text : List Char} (nonempty : text ≠ [])
    (first : ∀ c ∈ text.head?, isBlank c = false) (last : ∀ c ∈ text.getLast?, isBlank c = false)
    (noQuote : '"' ∉ text) (checked : Script.check 0 false text = .ok ())
    (calls : Tree.CallsFunctions [] text) :
    Formula.body ('=' :: text) = text ∧ Formula.check .standard ('=' :: text) = [] := by
  have body : Formula.body ('=' :: text) = text := by
    have whole : trim ('=' :: text) = '=' :: text := by
      refine trim_of_ends (fun c member => ?_) fun c member => ?_
      · obtain rfl := Option.some.inj member
        decide
      · rw [List.getLast?_cons, Option.mem_def, Option.some.injEq] at member
        cases ending : text.getLast? with
        | none => exact absurd (List.getLast?_eq_none_iff.mp ending) nonempty
        | some d =>
            rw [ending, Option.getD_some] at member
            exact member ▸ last d ending
    rw [Formula.body, whole]
    exact trim_of_ends first last
  obtain ⟨closed, balanced⟩ := (Script.check_iff 0 false text).mp checked
  have masked := maskFrom_of_plain noQuote
  rw [masked] at balanced
  refine ⟨body, ?_⟩
  simp [Formula.check, body, nonempty, maskQuoted, masked, closed, balanced,
    Tree.unknownFunctions_of_calls calls]

namespace Tree

theorem noQuote_spelled (tree : Tree) : '"' ∉ tree.spelled CellWord.token := by
  intro member
  have listed := isTreeChar_of_mem_spelled member
  revert listed
  decide

theorem text_ne_nil (tree : Tree) : tree.spelled CellWord.token ≠ [] := by
  cases tree with
  | number literal => exact digits_ne_nil literal
  | cell word => exact word.token_ne_nil
  | _ => simp [spelled]

theorem ofChars_spelled (tree : Tree) (grid : Grid) :
    Script.ofChars (tree.spelled (cellLiteralText grid)) =
      .ok (tree.script grid [] (.plain [])) := by
  refine Script.ofChars_eq_ok.mpr ⟨matched_script tree rfl rfl, ?_⟩
  rw [chars_script]
  simp [Script.chars]

theorem checkScript_spelled (tree : Tree) :
    Script.check 0 false (tree.spelled CellWord.token) = .ok () := by
  have absent (word : CellWord) : ({} : Grid).NumericAt word := by
    intro value member
    obtain ⟨cell, _, found⟩ := Option.bind_eq_some_iff.mp member
    simp [Grid.get?] at found
  have resolved := @resolve_spelled {} {} rfl tree fun word _ => absent word
  rw [← (resolve_keeps resolved).2]
  obtain ⟨matched, chars⟩ := Script.ofChars_eq_ok.mp (ofChars_spelled tree {})
  have checked := @Script.check_chars 0 false _ matched []
  rwa [List.append_nil, chars] at checked

theorem check_spelled (tree : Tree) :
    Formula.body ('=' :: tree.spelled CellWord.token) = tree.spelled CellWord.token ∧
      Formula.check .standard ('=' :: tree.spelled CellWord.token) = [] := by
  have visible : ∀ c ∈ tree.spelled CellWord.token, isBlank c = false :=
    fun c member => isTreeChar_visible (isTreeChar_of_mem_spelled member)
  exact Formula.check_of_calls tree.text_ne_nil
    (fun c first => visible c (List.mem_of_mem_head? first))
    (fun c last => visible c (List.mem_of_mem_getLast? last)) tree.noQuote_spelled
    tree.checkScript_spelled (tree.callsFunctions_spelled stopsName_nil)

end Tree

end Worksheet
