import Mathlib
import Worksheet.Proofs.Aggregate.Mean
import Worksheet.Proofs.Expression.Jammed

/-!
# An operator beside a range

A range is pasted into the text as a list of numbers with commas between. An operator beside it
binds to the number at that end of the list only, and the list is split into arguments afterwards.
So the aggregate is handed the other numbers as they are, and one number that is computed first.
-/

set_option autoImplicit false

namespace Worksheet

/-- A character that is part of no word, number or literal and separates no arguments. -/
def IsSeparate (c : Char) : Prop :=
  wordEdge (some c) = true ∧ Token.isNumberChar c = false ∧ c ∉ ['"', '(', ')', ',', ':']

instance (c : Char) : Decidable (IsSeparate c) :=
  inferInstanceAs (Decidable (_ ∧ _))

theorem isSeparate_of_isBlank {c : Char} (blank : isBlank c = true) : IsSeparate c := by
  have all : ∀ n ∈ [9, 10, 11, 12, 13, 0x20, 0x85, 0xA0, 0x1680, 0x2000, 0x2001, 0x2002, 0x2003,
      0x2004, 0x2005, 0x2006, 0x2007, 0x2008, 0x2009, 0x200A, 0x2028, 0x2029, 0x202F, 0x205F,
      0x3000], IsSeparate (Char.ofNat n) := by decide +kernel
  rw [← Char.ofNat_toNat c]
  refine all c.toNat ?_
  simp only [isBlank, Bool.or_eq_true, Bool.and_eq_true, decide_eq_true_eq, beq_iff_eq] at blank
  simp only [List.mem_cons, List.not_mem_nil, or_false]
  omega

theorem Arithmetic.isSeparate_symbol (operator : Arithmetic) : IsSeparate operator.symbol := by
  cases operator <;> decide +kernel

structure SpacedOperator where
  operator : Arithmetic
  before : List Char
  behind : List Char
  blankBefore : ∀ c ∈ before, isBlank c = true
  blankBehind : ∀ c ∈ behind, isBlank c = true

namespace SpacedOperator

variable (spaced : SpacedOperator)

def text : List Char :=
  spaced.before ++ spaced.operator.symbol :: spaced.behind

theorem text_ne_nil : spaced.text ≠ [] := by
  simp [text]

theorem isSeparate_of_mem {c : Char} (member : c ∈ spaced.text) : IsSeparate c := by
  rcases List.mem_append.mp member with inFront | inRest
  · exact isSeparate_of_isBlank (spaced.blankBefore c inFront)
  · rcases List.mem_cons.mp inRest with rfl | inBack
    · exact spaced.operator.isSeparate_symbol
    · exact isSeparate_of_isBlank (spaced.blankBehind c inBack)

theorem isPlain_text : IsPlain spaced.text := by
  intro c member
  have other := (spaced.isSeparate_of_mem member).2.2
  simp only [List.mem_cons, not_or] at other
  exact ⟨other.1, other.2.1, other.2.2.1⟩

theorem isPlain_around {first second : List Char} (left : IsPlain first) (right : IsPlain second) :
    IsPlain (first ++ (spaced.text ++ second)) := by
  intro c member
  rcases List.mem_append.mp member with inFirst | inRest
  · exact left c inFirst
  · rcases List.mem_append.mp inRest with inText | inSecond
    · exact spaced.isPlain_text c inText
    · exact right c inSecond

theorem isSolid_text : Arguments.IsSolid spaced.text := by
  refine Arguments.isSolid_plain fun c member => ?_
  have other := (spaced.isSeparate_of_mem member).2.2
  simp only [List.mem_cons, not_or] at other
  exact ⟨other.1, other.2.1, other.2.2.1, other.2.2.2.1⟩

theorem isSeparate_head (rest : List Char) : ∀ c ∈ (spaced.text ++ rest).head?, IsSeparate c := by
  intro c member
  obtain ⟨first, more, cons⟩ := List.exists_cons_of_ne_nil spaced.text_ne_nil
  rw [cons] at member
  obtain rfl : first = c := Option.some.inj member
  exact spaced.isSeparate_of_mem (cons ▸ List.mem_cons_self)

theorem wordEdge_head (rest : List Char) : wordEdge (spaced.text ++ rest).head? = true := by
  obtain ⟨first, more, cons⟩ := List.exists_cons_of_ne_nil spaced.text_ne_nil
  rw [cons]
  exact (spaced.isSeparate_of_mem (cons ▸ List.mem_cons_self)).1

theorem wordEdge_reverse (behind : List Char) :
    wordEdge (spaced.text.reverse ++ behind).head? = true := by
  obtain ⟨last, more, cons⟩ :=
    List.exists_cons_of_ne_nil (List.reverse_ne_nil_iff.mpr spaced.text_ne_nil)
  have member : last ∈ spaced.text := List.mem_reverse.mp (cons ▸ List.mem_cons_self)
  rw [cons]
  exact (spaced.isSeparate_of_mem member).1

theorem stopsName_reverse (behind : List Char) : StopsName (spaced.text.reverse ++ behind) :=
  Piece.isNameChar_of_edge (spaced.wordEdge_reverse behind)

theorem resolves_text {grid : Grid} {settings : Settings} {rest : List Char} (place : Place) :
    Resolves grid settings rest place spaced.text spaced.text
      (spaced.text.foldl Place.step place) := by
  refine resolves_run place fun c after suffix => Piece.reference?_eq_none ?_ _
  have edge := (spaced.isSeparate_of_mem (suffix.subset List.mem_cons_self)).1
  exact Piece.other_of_edge edge c rfl

end SpacedOperator

/-! ## Arguments -/

/-- The text is one argument, whatever its value is. -/
structure IsArgument (text : List Char) : Prop where
  operand : IsOperandText text
  solid : Arguments.IsSolid text
  trimmed : trim text = text
  present : isMissing text = false

theorem IsOperandText.append_spaced {first second : List Char} (left : IsOperandText first)
    (right : IsOperandText second) (spaced : SpacedOperator) :
    IsOperandText (first ++ (spaced.text ++ second)) := by
  refine ⟨?_, fun behind nameless => ?_⟩
  · apply Script.ofChars_of_check
    have checked := right.check_eq 0 []
    rw [List.append_nil] at checked
    rw [left.check_eq, Script.check_plain 0 false spaced.isPlain_text, checked]
    rfl
  · have flat := isFlat_of_plain spaced.isPlain_text
    rw [left.callNamesFrom_eq nameless, callNamesFrom_append, callNamesFrom_of_flat flat,
      endsQuoted_of_flat flat, List.nil_append]
    exact right.calls_none _ (spaced.stopsName_reverse _).nameBehind?_eq

theorem valueOf_spaced (spaced : SpacedOperator) {left right : Tree} (readable : left.Readable) :
    Expression.valueOf (left.spelled CellWord.token ++
        (spaced.text ++ right.spelled CellWord.token)) =
      Expression.valueOf ((Tree.binary spaced.operator left right).spelled CellWord.token) := by
  have symbol (text : List Char) : Token.ofText (spaced.operator.symbol :: text) =
      (Token.ofText text).map (.operator spaced.operator.operator :: ·) := by
    cases spaced.operator <;> exact Token.ofText_symbol (by decide) (by decide) (by decide) rfl
  have read : Token.ofText (left.spelled CellWord.token ++
        (spaced.text ++ right.spelled CellWord.token)) =
      Token.ofText ((Tree.binary spaced.operator left right).spelled CellWord.token) := by
    have tokens (rest : List Char) (ends : Token.EndsNumber rest) :=
      @Tree.ofText_spelled CellWord.token left readable rest ends
    rw [Tree.spelled, tokens _ fun c inside => (spaced.isSeparate_head _ c inside).2.1,
      tokens (spaced.operator.symbol :: _) ?tight, SpacedOperator.text, List.append_assoc,
      ofText_blanks spaced.blankBefore, List.cons_append, symbol, symbol,
      ofText_blanks spaced.blankBehind]
    case tight =>
      rintro c ⟨⟩
      exact spaced.operator.isSeparate_symbol.2.1
  unfold Expression.valueOf
  rw [read]

def Arithmetic.result (operator : Arithmetic) (x y : Float) : Except FormulaError Float :=
  operator.operator.compute x y >>= Tree.finiteOr (.invalidExpression .notFinite)

/-- A text that reads as this number, also beside an operator. -/
structure NumberText (text : List Char) (x : Float) where
  tree : Tree
  spelled : tree.spelled CellWord.token = text
  readable : tree.Readable
  strength : tree.strength = 5
  shallow : tree.nesting ≤ 2
  operand : IsOperandText text
  value : tree.value {} {} = .ok x

namespace NumberText

def ofFloat {x : Float} (finite : x.isFinite = true) : NumberText (numberLiteral x) (x + 0.0) where
  tree := .numeral (x + 0.0)
  spelled := Tree.spelled_numeral finite
  readable := Tree.readable_numeral _
  strength := Tree.strength_numeral _
  shallow := Tree.nesting_numeral _
  operand := isOperandText_numberLiteral finite
  value := Tree.value_numeral finite

def ofLiteral (literal : UnsignedLiteral) :
    NumberText literal.digits (literal.decimal.toFloat false) where
  tree := .number literal
  spelled := rfl
  readable := trivial
  strength := rfl
  shallow := Nat.zero_le 2
  operand := isOperandText_of_flat (isFlat_of_plain literal.isPlain_digits)
  value := rfl

variable {first second : List Char} {x y : Float} (left : NumberText first x)
  (right : NumberText second y) (spaced : SpacedOperator)
include left right

theorem valueOf_spaced : Expression.valueOf (first ++ (spaced.text ++ second)) =
    Value.number <$> spaced.operator.result x y := by
  have readable : (Tree.binary spaced.operator left.tree right.tree).Readable := by
    have loose := spaced.operator.strength_le
    have leftStrength := left.strength
    have rightStrength := right.strength
    exact ⟨by omega, by omega, left.readable, right.readable⟩
  have shallow : (Tree.binary spaced.operator left.tree right.tree).nesting ≤ groupLimit :=
    (max_le left.shallow right.shallow).trans (by decide)
  rw [← left.spelled, ← right.spelled, Worksheet.valueOf_spaced spaced left.readable,
    @Tree.valueOf_spelled CellWord.token {} {} _ readable shallow, Tree.value, left.value,
    right.value, Outcome.ok_bind, Outcome.ok_bind, Arithmetic.result]
  cases spaced.operator.operator.compute x y <;> rfl

theorem isArgument_spaced : IsArgument (first ++ (spaced.text ++ second)) where
  operand := left.operand.append_spaced right.operand spaced
  solid := by
    rw [← left.spelled, ← right.spelled]
    exact (Tree.isSolid_spelled left.readable).append
      (spaced.isSolid_text.append (Tree.isSolid_spelled right.readable))
  trimmed := by
    rw [← left.spelled, ← right.spelled]
    apply trim_of_ends
    · intro c member
      rw [List.head?_append_of_ne_nil _ (Tree.spelled_ne_nil left.readable)] at member
      exact (Tree.isArithmetic_of_mem_spelled left.readable (List.mem_of_mem_head? member)).2
    · intro c member
      rw [← List.append_assoc,
        List.getLast?_append_of_ne_nil _ (Tree.spelled_ne_nil right.readable)] at member
      exact (Tree.isArithmetic_of_mem_spelled right.readable (List.mem_of_mem_getLast? member)).2
  present := by
    have inside : spaced.operator.symbol ∈ first ++ (spaced.text ++ second) := by
      simp [SpacedOperator.text]
    have other : spaced.operator.symbol ∉ emptyRangeLiteral := by
      cases spaced.operator <;> decide
    simp only [isMissing, Bool.or_eq_false_iff, decide_eq_false_iff_not]
    exact ⟨List.ne_nil_of_mem inside, fun same => other (same ▸ inside)⟩

end NumberText

section

variable {text rest : List Char} {numbers : List Float}

theorem SpellsNumbers.parts_comma (spells : SpellsNumbers rest numbers) (text : List Char) :
    Arguments.parts 0 false (rest ++ ',' :: text) =
      Arguments.parts 0 false rest ++ Arguments.parts 0 false text := by
  induction spells with
  | single contributes => rw [contributes.solid.parts_comma, contributes.solid.parts_eq]; rfl
  | comma contributes _ ih =>
      rw [List.append_assoc, List.cons_append, contributes.solid.parts_comma, ih,
        contributes.solid.parts_comma, List.cons_append]

theorem Arguments.split_comma (first second : List Char) :
    split (first ++ ',' :: second) = (parts 0 false (first ++ ',' :: second)).map trim := by
  have visible : (first ++ ',' :: second).all isBlank = false := by
    simp [show isBlank ',' = false by decide]
  rw [split, isEmpty_trim, visible, if_neg Bool.false_ne_true]

section

variable (spells : SpellsNumbers rest numbers) (argument : IsArgument text)
  (run : List Float → Settings → Except FormulaError Value) (settings : Settings)
include spells argument

theorem SpellsNumbers.apply_append :
    (Body.aggregate run).apply settings (Arguments.split (rest ++ ',' :: text)) =
      Expression.valueOf text >>= fun value => run (numbers ++ value.number?.toList) settings := by
  obtain ⟨values, evaluated, rfl⟩ := spells.parts
  rw [Body.apply, Arguments.split_comma, spells.parts_comma, argument.solid.parts_eq,
    List.map_append, List.filter_append, List.map_singleton, argument.trimmed, List.mapM_append,
    evaluated, Outcome.ok_bind]
  simp only [argument.present, Bool.not_false, List.filter_cons_of_pos, List.filter_nil,
    List.mapM_cons, List.mapM_nil]
  cases Expression.valueOf text with
  | error error => rfl
  | ok value =>
      have last : [value].filterMap Value.number? = value.number?.toList := by
        cases number : value.number? <;> simp [number]
      simp only [Outcome.ok_bind, Outcome.pure_eq, List.filterMap_append, last]

theorem SpellsNumbers.apply_cons :
    (Body.aggregate run).apply settings (Arguments.split (text ++ ',' :: rest)) =
      Expression.valueOf text >>= fun value => run (value.number?.toList ++ numbers) settings := by
  obtain ⟨values, evaluated, rfl⟩ := spells.parts
  rw [Body.apply, Arguments.split_comma, argument.solid.parts_comma, List.map_cons,
    argument.trimmed, List.filter_cons_of_pos (by simp [argument.present]), List.mapM_cons,
    evaluated]
  cases Expression.valueOf text with
  | error error => rfl
  | ok value => cases number : value.number? <;> simp [number]

end

end

section

variable {grid : Grid} {settings : Settings} {token : List Char} {range : Range}

theorem resolves_range (described : token ∈ Pattern.range) (read : Range.read? token = some range)
    (nonempty : range.numbers grid ≠ []) {place : Place} (numeric : place.IsNumeric)
    (edge : wordEdge place.behind.head? = true) {rest : List Char}
    (ends : wordEdge rest.head? = true) (notOpening : rest.head? ≠ some '(') :
    Resolves grid settings rest place token (numbersLiteral (range.numbers grid))
      (token.foldl Place.step place) := by
  have cells : (range.cells grid).isEmpty = false := by
    rw [List.isEmpty_eq_false_iff]
    intro empty
    have none : range.entries grid = [] := List.map_eq_nil_iff.mp empty
    exact nonempty (by rw [Range.numbers, Range.values, none]; rfl)
  refine @resolves_reference grid settings (.range token) rest _ place edge
    (Piece.reference?_of_mem_range described ends) notOpening fun others closed => ?_
  simp [resolvePiece, numeric.outside, closed, numeric.readsText_eq, rangeLiteral, read, cells]

section

variable (settings) (described : token ∈ Pattern.range) (read : Range.read? token = some range)
  (nonempty : range.numbers grid ≠ []) (spaced : SpacedOperator) (literal : UnsignedLiteral)
include described read nonempty

theorem resolves_range_operator :
    ResolvesAsNumbers grid settings (token ++ (spaced.text ++ literal.digits))
      (numbersLiteral (range.numbers grid) ++ (spaced.text ++ literal.digits)) := by
  intro place rest numeric edge ends
  have head := spaced.isSeparate_head (literal.digits ++ rest)
  have pasted := @resolves_range grid settings token range described read nonempty place numeric
    edge (spaced.text ++ literal.digits ++ rest)
    (by rw [List.append_assoc]; exact spaced.wordEdge_head _)
    (by
      rw [List.append_assoc]
      intro opening
      exact absurd (head '(' opening) (by decide))
  have behind := numeric.foldl (Pattern.isPlain_of_mem_range described)
  exact ⟨_, (behind.foldl spaced.isPlain_text).foldl literal.isPlain_digits,
    pasted.append ((spaced.resolves_text _).append (resolves_digits ends))⟩

theorem resolves_operator_range :
    ResolvesAsNumbers grid settings (literal.digits ++ (spaced.text ++ token))
      (literal.digits ++ (spaced.text ++ numbersLiteral (range.numbers grid))) := by
  intro place rest numeric _ ends
  have head := spaced.isSeparate_head (token ++ rest)
  rw [← List.append_assoc] at head
  have digits := @resolves_number grid settings literal.digits (spaced.text ++ token ++ rest)
    (List.all_eq_true.mp literal.numeric)
    (fun c member => Piece.isDigit_of_edge (head c member).1 c rfl)
    (fun colon => absurd (head ':' colon) (by decide)) place
  have between := (numeric.foldl literal.isPlain_digits).foldl spaced.isPlain_text
  have edgeBehind : wordEdge (spaced.text.foldl Place.step
      (literal.digits.foldl Place.step place)).behind.head? = true := by
    rw [Place.behind_foldl]
    exact spaced.wordEdge_reverse _
  exact ⟨_, between.foldl (Pattern.isPlain_of_mem_range described),
    digits.append ((spaced.resolves_text _).append
      (resolves_range described read nonempty between edgeBehind ends.edge ends.notOpening))⟩

end

theorem numbersLiteral_append {front : List Float} (nonempty : front ≠ []) (x : Float) :
    numbersLiteral (front ++ [x]) = numbersLiteral front ++ ',' :: numberLiteral x := by
  obtain ⟨first, others, rfl⟩ := List.exists_cons_of_ne_nil nonempty
  change [','].intercalate ((first :: others ++ [x]).map numberLiteral) =
    [','].intercalate ((first :: others).map numberLiteral) ++ _
  induction others generalizing first with
  | nil => simp [List.intercalate]
  | cons second others ih =>
      have rest := ih second (by simp)
      simp only [List.cons_append, List.map_cons] at rest ⊢
      rw [List.intercalate_cons_cons, rest, List.intercalate_cons_cons]
      simp

theorem numbersLiteral_cons (y : Float) {back : List Float} (nonempty : back ≠ []) :
    numbersLiteral (y :: back) = numberLiteral y ++ ',' :: numbersLiteral back := by
  obtain ⟨first, others, rfl⟩ := List.exists_cons_of_ne_nil nonempty
  simp [numbersLiteral, List.intercalate_cons_cons]

end

/-! ## The formula -/

/-- What comes of a formula that computes one number and hands it to an aggregate among others. It
fails as the computation does. Otherwise it succeeds with what the aggregate makes of the numbers if
that is finite, and is an invalid expression if it is not. -/
structure ComesTo (run : List Float → Settings → Except FormulaError Value) (settings : Settings)
    (computed : Except FormulaError Float) (numbers : Float → List Float)
    (outcome : Except FormulaError Value) : Prop where
  failed : ∀ error, computed = .error error → outcome = .error error
  succeeded : ∀ z x, computed = .ok z → run (numbers z) settings = .ok (.number x) →
    x.isFinite = true → outcome = .ok (.number (x + 0.0))
  refused : ∀ z, computed = .ok z →
    (¬ ∃ x, run (numbers z) settings = .ok (.number x) ∧ x.isFinite = true) →
      ∃ fault, outcome = .error (.invalidExpression fault)

section

variable {settings : Settings} (positive : 1 ≤ settings.nestingLimit) {grid : Grid}
  {function : Function} (member : function ∈ Library.functions)
  {run : List Float → Settings → Except FormulaError Value}
  (isAggregate : function.body = .aggregate run)
include positive member isAggregate

/-- A call of an aggregate comes to what the aggregate makes of the arguments that its text resolves
to. -/
theorem Calculator.evaluate_comesTo {text literal : List Char} (plain : IsPlain text)
    (operand : IsOperandText literal)
    (resolves : ResolvesAsNumbers grid settings text literal)
    {computed : Except FormulaError Float} {numbers : Float → List Float}
    (applied : (Body.aggregate run).apply settings (Arguments.split literal) =
      computed >>= fun z => run (numbers z) settings) :
    ComesTo run settings computed numbers ((⟨settings, .standard⟩ : Calculator).evaluate
      ('=' :: (function.name ++ '(' :: (text ++ [')']))) grid) := by
  obtain ⟨⟨numeric, named⟩, _, _, total⟩ := Library.aggregate_spec member isAggregate
  have evaluated := Calculator.evaluate_call plain operand positive
    (resolves.call numeric).resolve_eq
  rw [NumericFunction.callText, named, Registry.call_of_apply member isAggregate, applied]
    at evaluated
  rw [evaluated]
  cases computed with
  | error error =>
      constructor
      case failed =>
        intro other same
        obtain rfl := Except.error.inj same
        rfl
      case succeeded =>
        intro z x same
        cases same
      case refused =>
        intro z same
        cases same
  | ok z =>
      obtain ⟨succeeded, refused⟩ := Calculator.result_of_aggregate
        (total (numbers z) settings) (.nonFiniteResult function.name)
      constructor
      case failed =>
        intro other same
        cases same
      case succeeded =>
        intro z' x same success finite
        obtain rfl := Except.ok.inj same
        exact succeeded x success finite
      case refused =>
        intro z' same none
        obtain rfl := Except.ok.inj same
        exact refused none

variable {token : List Char} {range : Range} (described : token ∈ Pattern.range)
  (read : Range.read? token = some range) (spaced : SpacedOperator) (literal : UnsignedLiteral)
include described read

theorem Calculator.evaluate_range_operator {front : List Float} {x : Float}
    (split : range.numbers grid = front ++ [x]) (nonempty : front ≠ []) :
    ComesTo run settings (spaced.operator.result (x + 0.0) (literal.decimal.toFloat false))
      (fun z => front.map (· + 0.0) ++ [z])
      ((⟨settings, .standard⟩ : Calculator).evaluate ('=' :: (function.name ++
        '(' :: (token ++ (spaced.text ++ literal.digits) ++ [')']))) grid) := by
  have finite : ∀ y ∈ front ++ [x], y.isFinite = true := split ▸ fun _ => isFinite_of_mem_numbers
  have spells := @spellsNumbers_numbersLiteral front fun y inside => finite y (by simp [inside])
  have left := NumberText.ofFloat (finite x (by simp))
  have right := NumberText.ofLiteral literal
  have argument := left.isArgument_spaced right spaced
  refine Calculator.evaluate_comesTo positive member isAggregate
    (spaced.isPlain_around (Pattern.isPlain_of_mem_range described) literal.isPlain_digits)
    (spells.operand.comma argument.operand) ?_ ?_
  · have numbers : range.numbers grid ≠ [] := by simp [split]
    have resolved := resolves_range_operator settings described read numbers spaced literal
    rwa [split, numbersLiteral_append nonempty, List.append_assoc, List.cons_append] at resolved
  · rw [spells.apply_append argument, left.valueOf_spaced right spaced]
    cases spaced.operator.result (x + 0.0) (literal.decimal.toFloat false) <;> rfl

theorem Calculator.evaluate_operator_range {y : Float} {back : List Float}
    (split : range.numbers grid = y :: back) (nonempty : back ≠ []) :
    ComesTo run settings (spaced.operator.result (literal.decimal.toFloat false) (y + 0.0))
      (fun z => z :: back.map (· + 0.0))
      ((⟨settings, .standard⟩ : Calculator).evaluate ('=' :: (function.name ++
        '(' :: (literal.digits ++ (spaced.text ++ token) ++ [')']))) grid) := by
  have finite : ∀ x ∈ y :: back, x.isFinite = true := split ▸ fun _ => isFinite_of_mem_numbers
  have spells := @spellsNumbers_numbersLiteral back fun x inside => finite x (by simp [inside])
  have left := NumberText.ofLiteral literal
  have right := NumberText.ofFloat (finite y (by simp))
  have argument := left.isArgument_spaced right spaced
  refine Calculator.evaluate_comesTo positive member isAggregate
    (spaced.isPlain_around literal.isPlain_digits (Pattern.isPlain_of_mem_range described))
    (argument.operand.comma spells.operand) ?_ ?_
  · have numbers : range.numbers grid ≠ [] := by simp [split]
    have resolved := resolves_operator_range settings described read numbers spaced literal
    rw [split, numbersLiteral_cons y nonempty] at resolved
    simpa only [List.append_assoc] using resolved
  · rw [spells.apply_cons argument, left.valueOf_spaced right spaced]
    cases spaced.operator.result (literal.decimal.toFloat false) (y + 0.0) <;> rfl

end

/-- An operator beside a range of two numbers or more, within the argument of an aggregate, is
applied to the number at that end of the range only. The formula comes to the aggregate of the
result and the other numbers. -/
theorem Calculator.evaluate_operator_beside_range (settings : Settings)
    (positive : 1 ≤ settings.nestingLimit) (grid : Grid) {function : Function}
    (member : function ∈ Library.functions)
    {run : List Float → Settings → Except FormulaError Value}
    (isAggregate : function.body = .aggregate run) {token : List Char} {range : Range}
    (described : token ∈ Pattern.range) (read : Range.read? token = some range)
    (many : 2 ≤ (range.numbers grid).length) (spaced : SpacedOperator)
    (literal : UnsignedLiteral) :
    let evaluate (argument : List Char) := (⟨settings, .standard⟩ : Calculator).evaluate
      ('=' :: (function.name ++ '(' :: (argument ++ [')']))) grid
    let k := literal.decimal.toFloat false
    (∀ front x, range.numbers grid = front ++ [x] →
      ComesTo run settings (spaced.operator.result (x + 0.0) k)
        (fun z => front.map (· + 0.0) ++ [z])
        (evaluate (token ++ (spaced.text ++ literal.digits)))) ∧
      ∀ y back, range.numbers grid = y :: back →
        ComesTo run settings (spaced.operator.result k (y + 0.0))
          (fun z => z :: back.map (· + 0.0))
          (evaluate (literal.digits ++ (spaced.text ++ token))) := by
  intro evaluate k
  constructor
  · intro front x split
    refine Calculator.evaluate_range_operator positive member isAggregate described read spaced
      literal split ?_
    rintro rfl
    simp [split] at many
  · intro y back split
    refine Calculator.evaluate_operator_range positive member isAggregate described read spaced
      literal split ?_
    rintro rfl
    simp [split] at many

/-- A range whose corners are swapped over a text and a text that spells a number: the last number
is multiplied, the first one is subtracted, and a division of the last one by zero is an error. -/
theorem Calculator.evaluate_operator_beside_range_of_swapped_corners :
    let grid : Grid := ⟨[[.number 1.0, .text "x".toList], [.number 2.0, .text " 2.5".toList]]⟩
    Calculator.evaluate {} "=SUM(B2 : a1 * 4)".toList grid = .ok (.number 13.0) ∧
      Calculator.evaluate {} "=SUM(4 -B2 : a1)".toList grid = .ok (.number 7.5) ∧
        Calculator.evaluate {} "=SUM(B2 : a1/0)".toList grid = .error .divisionByZero := by
  let grid : Grid := ⟨[[.number 1.0, .text "x".toList], [.number 2.0, .text " 2.5".toList]]⟩
  have numbers : Range.numbers ⟨⟨0, 0⟩, ⟨1, 1⟩⟩ grid = [1.0, 2.0, 2.5] := by decide +kernel
  let four : UnsignedLiteral := ⟨"4".toList, ⟨4, 0⟩, by decide, by decide⟩
  let zero : UnsignedLiteral := ⟨"0".toList, ⟨0, 0⟩, by decide, by decide⟩
  let times : SpacedOperator := ⟨.multiply, [' '], [' '], by simp [isBlank], by simp [isBlank]⟩
  let minus : SpacedOperator := ⟨.subtract, [' '], [], by simp [isBlank], by simp⟩
  let division : SpacedOperator := ⟨.divide, [], [], by simp, by simp⟩
  have beside (spaced : SpacedOperator) (literal : UnsignedLiteral) :=
    Calculator.evaluate_operator_beside_range {} (by decide) grid
      (List.mem_cons_self (a := Library.functions[0])) rfl
      (Pattern.mem_range_iff.mpr (by decide) : "B2 : a1".toList ∈ Pattern.range)
      (by decide : Range.read? "B2 : a1".toList = some ⟨⟨0, 0⟩, ⟨1, 1⟩⟩)
      (by rw [numbers]; decide) spaced literal
  have product := ((beside times four).1 [1.0, 2.0] 2.5 numbers).succeeded 10.0 13.0
    (by decide +kernel) (by decide +kernel) (by decide)
  have difference := ((beside minus four).2 1.0 [2.0, 2.5] numbers).succeeded 3.0 7.5
    (by decide +kernel) (by decide +kernel) (by decide)
  have quotient := ((beside division zero).1 [1.0, 2.0] 2.5 numbers).failed .divisionByZero
    (by decide +kernel)
  exact ⟨product, difference, quotient⟩

/-- The operator adds to the last number only, and the formula succeeds. -/
theorem Calculator.range_within_sum :
    let grid : Grid := ⟨[[.number 1.0], [.number 2.0]]⟩
    (Range.read? "A1:A2".toList).map (·.numbers grid) = some [1.0, 2.0] ∧
      Calculator.evaluate {} "=SUM(A1:A2+1)".toList grid = .ok (.number 4.0) := by
  decide +kernel

end Worksheet
