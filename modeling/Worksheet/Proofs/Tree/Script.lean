import Mathlib
import Worksheet.Proofs.Script.Collapse
import Worksheet.Proofs.Tree.Calls
import Worksheet.Proofs.Tree.Reduction

/-!
# The script of a tree

The text of a tree, with the literals of its cells, is a script. Its calls nest as deep as those of
the tree, and collapsing it gives the text of the reduced tree: each call is replaced by the numeral
of its value.
-/

set_option autoImplicit false

namespace Worksheet

namespace NumericFunction

theorem capitals_name (function : NumericFunction) :
    capitals function.name = function.name := by
  cases function <;> rfl

theorem nameBehind?_name (function : NumericFunction) :
    nameBehind? function.name.reverse = some function.name := by
  cases function <;> rfl

theorem isFlat_name (function : NumericFunction) : isFlat false function.name = true := by
  cases function <;> rfl

theorem callName?_append_name (function : NumericFunction) {lead : List Char}
    (stops : StopsName lead.reverse) :
    Script.callName? (lead ++ function.name) = some function.name ∧
      Script.beforeName (lead ++ function.name) function.name = lead := by
  constructor
  · rw [Script.callName?, List.reverse_append, nameBehind?_append_of_stops _ stops,
      nameBehind?_name]
  · simp [Script.beforeName]

end NumericFunction

namespace Tree

variable {cellText : CellWord → List Char} {settings : Settings} {grid : Grid}

/-- A call of a numeric function on the texts of trees is the function on their values. -/
theorem call_spelledAll {function : NumericFunction} {trees : List Tree} {outcome : Value}
    (readable : ∀ tree ∈ trees, tree.Readable ∧ tree.nesting ≤ groupLimit) :
    Registry.standard.call settings function.name
        (Arguments.split (spelledAll cellText trees)) = .ok outcome ↔
      ∃ numbers x, values settings grid trees = .ok numbers ∧
        function.compute settings numbers = .ok x ∧ x.isFinite = true ∧ outcome = .number x := by
  obtain ⟨entry, found, arity, run, applies, computes⟩ := function.get?_standard
  have present : ∀ text ∈ trees.map (spelled cellText), isMissing text = false := by
    intro text member
    obtain ⟨tree, inside, rfl⟩ := List.mem_map.mp member
    exact isMissing_spelled (readable tree inside).1
  rw [split_spelledAll fun tree member => (readable tree member).1, Registry.call]
  simp only [function.capitals_name, found, arity, List.length_map,
    applies settings _ present, @mapM_valueOf cellText settings grid trees readable]
  constructor
  · intro success
    split at success
    · rename_i admitted
      obtain ⟨value, applied, success⟩ := Outcome.bind_eq_ok.mp success
      obtain ⟨rfl, finite⟩ := Expression.requireFinite_eq_ok.mp success
      cases evaluated : values settings grid trees with
      | error error => simp [evaluated] at applied
      | ok numbers =>
          rw [← length_of_values evaluated] at admitted
          simp only [evaluated, Except.map_ok, Outcome.ok_bind, computes settings _ admitted]
            at applied
          cases computed : function.compute settings numbers with
          | error error => simp [computed] at applied
          | ok x =>
              rw [computed] at applied
              cases applied
              exact ⟨numbers, x, rfl, computed, finite, rfl⟩
    · cases success
  · rintro ⟨numbers, x, evaluated, computed, finite, rfl⟩
    have admitted := NumericFunction.admits_of_compute computed
    have run := computes settings numbers admitted
    rw [length_of_values evaluated] at admitted
    rw [if_pos admitted]
    simp [evaluated, run, computed, Expression.requireFinite, finite]

mutual

def script (grid : Grid) (lead : List Char) (rest : Script) : Tree → Script
  | number literal => rest.prepend (lead ++ literal.digits)
  | cell word => Script.splice lead (.number (cellNumber grid word)) rest
  | sign negative operand => operand.script grid (lead ++ [signSymbol negative]) rest
  | group inner => .group lead (inner.script grid [] (.plain [])) rest
  | binary operator left right =>
      left.script grid lead (right.script grid [operator.symbol] rest)
  | call function arguments => .group (lead ++ function.name) (scriptAll grid [] arguments) rest

def scriptAll (grid : Grid) (lead : List Char) : List Tree → Script
  | [] => .plain lead
  | [argument] => argument.script grid lead (.plain [])
  | argument :: others => argument.script grid lead (scriptAll grid [','] others)

end

theorem scriptAll_cons_cons (lead : List Char) (first second : Tree) (others : List Tree) :
    scriptAll grid lead (first :: second :: others) =
      first.script grid lead (scriptAll grid [','] (second :: others)) := by
  rw [scriptAll]
  simp

theorem spelledAll_cons_cons (first second : Tree) (others : List Tree) :
    spelledAll cellText (first :: second :: others) =
      first.spelled cellText ++ ',' :: spelledAll cellText (second :: others) := by
  rw [spelledAll]
  simp

theorem isFinite_cell (grid : Grid) (word : CellWord) :
    (Value.number (cellNumber grid word)).IsFinite :=
  isFinite_cellNumber grid word

theorem chars_script (tree : Tree) (lead : List Char) (rest : Script) :
    (tree.script grid lead rest).chars =
      lead ++ tree.spelled (cellLiteralText grid) ++ rest.chars := by
  induction tree using Tree.induction generalizing lead rest with
  | number literal => rw [script, Script.chars_prepend, spelled]
  | cell word => exact Script.chars_splice (isFinite_cell grid word) lead rest
  | sign negative operand ih => simp [script, spelled, ih]
  | group inner ih => simp [script, spelled, Script.chars, ih]
  | binary operator left right ihLeft ihRight => simp [script, spelled, ihLeft, ihRight]
  | call function arguments ih =>
      have all (lead : List Char) : (scriptAll grid lead arguments).chars =
          lead ++ spelledAll (cellLiteralText grid) arguments := by
        induction arguments generalizing lead with
        | nil => simp [scriptAll, spelledAll, Script.chars]
        | cons first others ihAll =>
            cases others with
            | nil => simp [scriptAll, spelledAll, Script.chars, ih first List.mem_cons_self]
            | cons second others =>
                have tail := ihAll fun tree member => ih tree (List.mem_cons_of_mem _ member)
                rw [scriptAll_cons_cons, spelledAll_cons_cons, ih first List.mem_cons_self, tail]
                simp
      simp [script, spelled, Script.chars, all]

theorem matched_script (tree : Tree) {inside : Bool} {lead : List Char}
    (flat : isFlat inside lead = true) {rest : Script} (matched : rest.Matched false) :
    (tree.script grid lead rest).Matched inside := by
  induction tree using Tree.induction generalizing inside lead rest with
  | number literal =>
      refine matched.prepend ((isFlat_append flat _).trans ?_)
      exact isFlat_numeric (List.all_eq_true.mp literal.numeric)
  | cell word => exact Script.matched_splice (isFinite_cell grid word) flat matched
  | sign negative operand ih =>
      exact ih ((isFlat_append flat _).trans (by cases negative <;> rfl)) matched
  | group inner ih => exact ⟨flat, ih rfl rfl, matched⟩
  | binary operator left right ihLeft ihRight =>
      exact ihLeft flat (ihRight (by cases operator <;> rfl) matched)
  | call function arguments ih =>
      have all {lead : List Char} (flat : isFlat false lead = true) :
          (scriptAll grid lead arguments).Matched false := by
        induction arguments generalizing lead with
        | nil => exact flat
        | cons first others ihAll =>
            cases others with
            | nil => exact ih first List.mem_cons_self flat rfl
            | cons second others =>
                rw [scriptAll_cons_cons]
                exact ih first List.mem_cons_self flat
                  (ihAll (fun tree member => ih tree (List.mem_cons_of_mem _ member)) rfl)
      exact ⟨(isFlat_append flat _).trans function.isFlat_name, all rfl, matched⟩

theorem callName?_append_digits (literal : UnsignedLiteral) {lead : List Char}
    (stops : StopsName lead.reverse) : Script.callName? (lead ++ literal.digits) = none := by
  rw [Script.callName?, List.reverse_append]
  exact nameBehind?_of_numeric (List.all_eq_true.mp literal.numeric) stops

theorem stopsName_signSymbol (lead : List Char) (negative : Bool) :
    StopsName (lead ++ [signSymbol negative]).reverse := by
  rw [List.reverse_append, List.reverse_singleton, List.singleton_append]
  exact stopsName_cons (by cases negative <;> decide) _

theorem stopsName_symbol (operator : Arithmetic) : StopsName [operator.symbol].reverse :=
  stopsName_cons (by cases operator <;> decide) []

theorem stopsName_comma : StopsName [','].reverse :=
  stopsName_cons (by decide) []

theorem namesApart_scriptAll_of {arguments : List Tree}
    (each : ∀ argument ∈ arguments, ∀ {lead : List Char}, StopsName lead.reverse →
      ∀ {rest : Script}, rest.NamesApart true → ∀ {behindGroup : Bool},
        (behindGroup = true → lead ≠ []) →
          (argument.script grid lead rest).NamesApart behindGroup)
    {lead : List Char} (stops : StopsName lead.reverse) {behindGroup : Bool}
    (room : behindGroup = true → lead ≠ []) :
    (scriptAll grid lead arguments).NamesApart behindGroup := by
  induction arguments generalizing lead behindGroup with
  | nil => trivial
  | cons first others ih =>
      cases others with
      | nil => exact @each first List.mem_cons_self lead stops (.plain []) trivial _ room
      | cons second others =>
          rw [scriptAll_cons_cons]
          refine each first List.mem_cons_self stops ?_ room
          exact ih (fun tree member => each tree (List.mem_cons_of_mem _ member)) stopsName_comma
            (by simp)

theorem namesApart_script (tree : Tree) {lead : List Char} (stops : StopsName lead.reverse)
    {rest : Script} (apart : rest.NamesApart true) {behindGroup : Bool}
    (room : behindGroup = true → lead ≠ []) :
    (tree.script grid lead rest).NamesApart behindGroup := by
  induction tree using Tree.induction generalizing lead rest behindGroup with
  | number literal =>
      exact apart.prepend (by simp [digits_ne_nil])
        (Script.keepsName_of_apart (callName?_append_digits literal stops) apart) behindGroup
  | cell word =>
      have call : Script.CallValue := fun _ _ => .ok (.text [])
      exact (@Script.splice_spec call _ stops _ (isFinite_cell grid word) _ apart _).2.2
  | sign negative operand ih =>
      exact ih (stopsName_signSymbol lead negative) apart (by simp)
  | group inner ih =>
      refine ⟨fun _ name named => ?_, @ih [] stopsName_nil (.plain []) trivial false (by simp),
        apart⟩
      have nameless : Script.callName? lead = none := stops.nameBehind?_eq
      rw [nameless] at named
      cases named
  | binary operator left right ihLeft ihRight =>
      exact ihLeft stops (ihRight (stopsName_symbol operator) apart (by simp)) room
  | call function arguments ih =>
      obtain ⟨named, front⟩ := function.callName?_append_name stops
      refine ⟨fun behind name found => ?_,
        @namesApart_scriptAll_of grid arguments ih [] stopsName_nil false (by simp), apart⟩
      rw [named] at found
      cases found
      rw [front]
      exact room behind

theorem namesApart_scriptAll (arguments : List Tree) {lead : List Char}
    (stops : StopsName lead.reverse) {behindGroup : Bool} (room : behindGroup = true → lead ≠ []) :
    (scriptAll grid lead arguments).NamesApart behindGroup :=
  namesApart_scriptAll_of (fun argument _ _ => namesApart_script argument) stops room

end Tree

end Worksheet
