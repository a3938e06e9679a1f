import Mathlib
import Worksheet.Function.Application
import Worksheet.Proofs.Script.Arguments
import Worksheet.Proofs.Script.Name
import Worksheet.Proofs.Tree.Reading

/-!
# Calls with trees as arguments

The text between the parentheses of a call splits into the texts of its arguments, and calling a
function on these texts is computing it on the values of the trees.
-/

set_option autoImplicit false

namespace Worksheet

namespace Tree

variable {cellText : CellWord → List Char} {settings : Settings} {grid : Grid}

def IsArithmetic (c : Char) : Prop :=
  Expression.isArithmeticChar c = true ∧ isBlank c = false

theorem isArithmetic_of_mem_digits {literal : UnsignedLiteral} {c : Char}
    (member : c ∈ literal.digits) : IsArithmetic c := by
  have numeric := List.all_eq_true.mp literal.numeric c member
  refine ⟨?_, Token.isBlank_of_isNumberChar numeric⟩
  simp only [Token.isNumberChar, Bool.or_eq_true, beq_iff_eq] at numeric
  rcases numeric with digit | rfl
  · simp [Expression.isArithmeticChar, digit]
  · decide

theorem isArithmetic_symbol (operator : Arithmetic) : IsArithmetic operator.symbol := by
  cases operator <;> exact ⟨by decide, by decide⟩

theorem isArithmetic_signSymbol (negative : Bool) : IsArithmetic (signSymbol negative) := by
  cases negative <;> exact ⟨by decide, by decide⟩

theorem isArithmetic_of_mem_spelled {tree : Tree} (readable : tree.Readable) {c : Char}
    (member : c ∈ tree.spelled cellText) : IsArithmetic c := by
  induction tree using Tree.induction with
  | number literal => exact isArithmetic_of_mem_digits member
  | cell word => exact readable.elim
  | sign negative operand ih =>
      rcases List.mem_cons.mp member with rfl | member
      · exact isArithmetic_signSymbol negative
      · exact ih readable.2 member
  | group inner ih =>
      simp only [spelled, List.mem_cons, List.mem_append, List.not_mem_nil, or_false] at member
      rcases member with rfl | member | rfl
      · exact ⟨by decide, by decide⟩
      · exact ih readable member
      · exact ⟨by decide, by decide⟩
  | binary operator left right ihLeft ihRight =>
      obtain ⟨_, _, leftReadable, rightReadable⟩ := readable
      simp only [spelled, List.mem_append, List.mem_cons] at member
      rcases member with member | rfl | member
      · exact ihLeft leftReadable member
      · exact isArithmetic_symbol operator
      · exact ihRight rightReadable member
  | call function arguments _ => exact readable.elim

theorem trim_spelled {tree : Tree} (readable : tree.Readable) :
    trim (tree.spelled cellText) = tree.spelled cellText :=
  trim_of_visible fun _ member => (isArithmetic_of_mem_spelled readable member).2

theorem digits_ne_nil (literal : UnsignedLiteral) : literal.digits ≠ [] := by
  intro empty
  have read := literal.read
  rw [empty] at read
  have none : Numeral.magnitude? [] = Option.none := rfl
  rw [none] at read
  cases read

theorem spelled_ne_nil {tree : Tree} (readable : tree.Readable) :
    tree.spelled cellText ≠ [] := by
  cases tree with
  | number literal => exact digits_ne_nil literal
  | cell word => exact readable.elim
  | call function arguments => exact readable.elim
  | _ => simp [spelled]

/-- The text of a readable tree is not that of a missing argument. -/
theorem isMissing_spelled {tree : Tree} (readable : tree.Readable) :
    isMissing (tree.spelled cellText) = false := by
  suffices tree.spelled cellText ≠ emptyRangeLiteral by
    simp [isMissing, spelled_ne_nil readable, this]
  intro same
  have length : (tree.spelled cellText).length = 2 := by
    rw [same]
    rfl
  have opens : '(' ∈ tree.spelled cellText := by
    rw [same]
    decide
  cases tree with
  | number literal =>
      exact (isNumberChar_ne (List.all_eq_true.mp literal.numeric _ opens)).2.1 rfl
  | cell word => exact readable.elim
  | sign negative operand =>
      have first := (List.cons.inj same).1
      cases negative <;> exact absurd first (by decide)
  | group inner =>
      have nonempty := List.length_pos_iff.mpr (@spelled_ne_nil cellText inner readable)
      simp only [spelled, List.length_cons, List.length_append, List.length_nil] at length
      omega
  | binary operator left right =>
      have leftNonempty :=
        List.length_pos_iff.mpr (@spelled_ne_nil cellText left readable.2.2.1)
      have rightNonempty :=
        List.length_pos_iff.mpr (@spelled_ne_nil cellText right readable.2.2.2)
      simp only [spelled, List.length_cons, List.length_append] at length
      omega
  | call function arguments => exact readable.elim

theorem isSolid_spelled {tree : Tree} (readable : tree.Readable) :
    Arguments.IsSolid (tree.spelled cellText) := by
  induction tree using Tree.induction with
  | number literal =>
      refine Arguments.isSolid_plain fun c member => ?_
      have numeric := List.all_eq_true.mp literal.numeric c member
      obtain ⟨notQuote, notOpening, notClosing⟩ := isNumberChar_ne numeric
      refine ⟨notQuote, notOpening, notClosing, ?_⟩
      rintro rfl
      revert numeric
      decide
  | cell word => exact readable.elim
  | sign negative operand ih =>
      exact (ih readable.2).cons (by cases negative <;> decide)
  | group inner ih => exact (ih readable).group
  | binary operator left right ihLeft ihRight =>
      obtain ⟨_, _, leftReadable, rightReadable⟩ := readable
      exact (ihLeft leftReadable).append
        ((ihRight rightReadable).cons (by cases operator <;> decide))
  | call function arguments _ => exact readable.elim

theorem parts_spelledAll {trees : List Tree} (readable : ∀ tree ∈ trees, tree.Readable)
    (nonempty : trees ≠ []) :
    Arguments.parts 0 false (spelledAll cellText trees) = trees.map (spelled cellText) := by
  induction trees with
  | nil => exact absurd rfl nonempty
  | cons first rest ih =>
      have solid := @isSolid_spelled cellText first (readable first List.mem_cons_self)
      cases rest with
      | nil => exact solid.parts_eq
      | cons second others =>
          rw [spelledAll, solid.parts_comma, List.map_cons,
            ih (fun tree member => readable tree (List.mem_cons_of_mem _ member)) (by simp)]
          simp

theorem spelledAll_ne_nil {trees : List Tree} (readable : ∀ tree ∈ trees, tree.Readable)
    (nonempty : trees ≠ []) : spelledAll cellText trees ≠ [] := by
  cases trees with
  | nil => exact absurd rfl nonempty
  | cons first rest =>
      have firstNonempty := @spelled_ne_nil cellText first (readable first List.mem_cons_self)
      cases rest <;> simp [spelledAll, firstNonempty]

theorem visible_of_mem_spelledAll {trees : List Tree} (readable : ∀ tree ∈ trees, tree.Readable)
    {c : Char} (member : c ∈ spelledAll cellText trees) : isBlank c = false := by
  induction trees with
  | nil => cases member
  | cons first rest ih =>
      have firstReadable := readable first List.mem_cons_self
      cases rest with
      | nil => exact (isArithmetic_of_mem_spelled firstReadable member).2
      | cons second others =>
          rw [spelledAll, List.mem_append, List.mem_cons] at member
          · rcases member with member | rfl | member
            · exact (isArithmetic_of_mem_spelled firstReadable member).2
            · decide
            · exact ih (fun tree inside => readable tree (List.mem_cons_of_mem _ inside)) member
          · simp

theorem split_spelledAll {trees : List Tree} (readable : ∀ tree ∈ trees, tree.Readable) :
    Arguments.split (spelledAll cellText trees) = trees.map (spelled cellText) := by
  by_cases empty : trees = []
  · subst empty
    rfl
  · have visible := trim_of_visible fun c => @visible_of_mem_spelledAll cellText trees readable c
    rw [Arguments.split, visible, if_neg (by simpa using spelledAll_ne_nil readable empty),
      parts_spelledAll readable empty, List.map_map]
    exact List.map_congr_left fun tree member => trim_spelled (readable tree member)

theorem mapM_valueOf {trees : List Tree}
    (readable : ∀ tree ∈ trees, tree.Readable ∧ tree.nesting ≤ groupLimit) :
    (trees.map (spelled cellText)).mapM Expression.valueOf =
      (List.map Value.number) <$> values settings grid trees := by
  induction trees with
  | nil => rfl
  | cons first rest ih =>
      obtain ⟨firstReadable, firstShallow⟩ := readable first List.mem_cons_self
      rw [List.map_cons, List.mapM_cons, values,
        ih fun tree member => readable tree (List.mem_cons_of_mem _ member),
        @valueOf_spelled cellText settings grid first firstReadable firstShallow]
      cases first.value settings grid with
      | error error => rfl
      | ok x =>
          simp only [Outcome.ok_bind]
          cases finiteOr (.invalidExpression .notFinite) x with
          | error error => rfl
          | ok y => cases values settings grid rest <;> rfl

theorem length_of_values {trees : List Tree} {numbers : List Float}
    (success : values settings grid trees = .ok numbers) : numbers.length = trees.length := by
  induction trees generalizing numbers with
  | nil =>
      cases success
      rfl
  | cons first rest ih =>
      obtain ⟨_, others, _, _, restValues, rfl⟩ := values_cons_eq_ok.mp success
      rw [List.length_cons, List.length_cons, ih restValues]

end Tree

/-! ## The functions of the library -/

/-- A body that evaluates all its arguments and computes a number from numbers, for as many of
them as the arity admits. -/
def Body.Computes (body : Body) (arity : Arity)
    (compute : Settings → List Float → Except FormulaError Float) : Prop :=
  ∃ run : Settings → List Value → Except FormulaError Value,
    (∀ settings texts, (∀ text ∈ texts, isMissing text = false) →
      body.apply settings texts = texts.mapM Expression.valueOf >>= run settings) ∧
    ∀ settings numbers, arity.admits numbers.length = true →
      run settings (numbers.map .number) = Value.number <$> compute settings numbers

theorem filterMap_number? (numbers : List Float) :
    (numbers.map Value.number).filterMap Value.number? = numbers := by
  induction numbers with
  | nil => rfl
  | cons x rest ih => simp [Value.number?, ih]

theorem Body.computes_aggregate {run : List Float → Settings → Except FormulaError Value}
    {arity : Arity} {compute : Settings → List Float → Except FormulaError Float}
    (same : ∀ settings numbers, run numbers settings = Value.number <$> compute settings numbers) :
    (Body.aggregate run).Computes arity compute := by
  refine ⟨fun settings values => run (values.filterMap Value.number?) settings, ?_, ?_⟩
  · intro settings texts present
    have all : texts.filter (fun text => !isMissing text) = texts := by
      rw [List.filter_eq_self]
      intro text member
      simp [present text member]
    rw [Body.apply, all]
  · intro settings numbers _
    change run ((numbers.map Value.number).filterMap Value.number?) settings = _
    rw [filterMap_number?, same]

theorem Body.computes_scalar {run : List Value → Settings → Except FormulaError Value}
    {arity : Arity} {compute : Settings → List Float → Except FormulaError Float}
    (same : ∀ settings numbers, arity.admits numbers.length = true →
      run (numbers.map .number) settings = Value.number <$> compute settings numbers) :
    (Body.scalar run).Computes arity compute := by
  refine ⟨fun settings values => run values settings, ?_, same⟩
  intro settings texts present
  have values : texts.mapM argumentValue = texts.mapM Expression.valueOf := by
    induction texts with
    | nil => rfl
    | cons text rest ih =>
        rw [List.mapM_cons, List.mapM_cons,
          ih fun other member => present other (List.mem_cons_of_mem _ member)]
        simp [argumentValue, present text List.mem_cons_self]
  rw [Body.apply, values]

namespace NumericFunction

/-- Each numeric function stands in the library under its name and computes what it should. -/
theorem get?_standard (function : NumericFunction) :
    ∃ entry, Registry.standard.get? function.name = some entry ∧
      entry.arity = function.arity ∧
      entry.body.Computes function.arity fun settings => function.compute settings := by
  have extremum (name : String) (pick : Float → Float → Float) (settings : Settings)
      (numbers : List Float) (same : function.name = name.toList) :
      Aggregate.extremum name pick numbers settings =
        Value.number <$> function.extremum pick settings numbers := by
    cases numbers with
    | cons first rest => rfl
    | nil =>
        cases empty : settings.emptyExtremum <;>
          simp [Aggregate.extremum, NumericFunction.extremum, empty, same]
  cases function with
  | sum => exact ⟨_, rfl, rfl, Body.computes_aggregate fun _ _ => rfl⟩
  | average => exact ⟨_, rfl, rfl, Body.computes_aggregate fun _ _ => rfl⟩
  | min =>
      exact ⟨_, rfl, rfl, Body.computes_aggregate fun settings numbers =>
        extremum "MIN" Aggregate.smaller settings numbers rfl⟩
  | max =>
      exact ⟨_, rfl, rfl, Body.computes_aggregate fun settings numbers =>
        extremum "MAX" Aggregate.larger settings numbers rfl⟩
  | count => exact ⟨_, rfl, rfl, Body.computes_aggregate fun _ _ => rfl⟩
  | median => exact ⟨_, rfl, rfl, Body.computes_aggregate fun _ _ => rfl⟩
  | product => exact ⟨_, rfl, rfl, Body.computes_aggregate fun _ _ => rfl⟩
  | round =>
      refine ⟨_, rfl, rfl, Body.computes_scalar fun settings numbers admitted => ?_⟩
      match numbers, admitted with
      | [x], _ =>
          have found : Library.numberAt "ROUND" 0 [.number x] = .ok x := rfl
          have whole : truncate 0.0 = 0 := by decide +kernel
          change Library.round [.number x] = _
          simp [Library.round, found, whole, compute]
      | [x, places], _ => rfl
  | abs =>
      refine ⟨_, rfl, rfl, Body.computes_scalar fun settings numbers admitted => ?_⟩
      match numbers, admitted with
      | [x], _ => rfl
  | power =>
      refine ⟨_, rfl, rfl, Body.computes_scalar fun settings numbers admitted => ?_⟩
      match numbers, admitted with
      | [base, exponent], _ => rfl
  | sqrt =>
      refine ⟨_, rfl, rfl, Body.computes_scalar fun settings numbers admitted => ?_⟩
      match numbers, admitted with
      | [x], _ =>
          have found : Library.numberAt "SQRT" 0 [.number x] = .ok x := rfl
          change Library.squareRoot [.number x] = _
          rw [Library.squareRoot, found, Outcome.ok_bind]
          rfl

theorem admits_of_compute {function : NumericFunction} {settings : Settings}
    {numbers : List Float} {x : Float} (success : function.compute settings numbers = .ok x) :
    function.arity.admits numbers.length = true := by
  cases function with
  | round =>
      match numbers with
      | [] => cases success
      | [_] => rfl
      | [_, _] => rfl
      | _ :: _ :: _ :: _ => cases success
  | abs =>
      match numbers with
      | [] => cases success
      | [_] => rfl
      | _ :: _ :: _ => cases success
  | power =>
      match numbers with
      | [] => cases success
      | [_] => cases success
      | [_, _] => rfl
      | _ :: _ :: _ :: _ => cases success
  | sqrt =>
      match numbers with
      | [] => cases success
      | [_] => rfl
      | _ :: _ :: _ => cases success
  | _ => rfl

end NumericFunction

end Worksheet
