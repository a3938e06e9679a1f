import Mathlib
import Worksheet.Proofs.Reference.Slot
import Worksheet.Proofs.Reference.Strictness
import Worksheet.Proofs.Script.Beside

/-!
# Where the arguments of a call stand

A function whose arguments have fixed meanings gets them by position. Once the references in its
arguments are resolved, a range of two or more numbers has become as many arguments, and those
behind it have moved up by as many places less one. An empty range, a range of one number, a cell
and any other argument keep a single place.
-/

set_option autoImplicit false

namespace Worksheet

variable {grid : Grid} {settings : Settings}

def positionalNames : List (List Char) :=
  ["ROUND".toList, "ABS".toList, "POWER".toList, "SQRT".toList, "IF".toList]

def writtenArguments (inner : List Char) : List (List Char) :=
  if (trim inner).isEmpty then [] else Arguments.parts 0 false inner

theorem visible_numbersLiteral {numbers : List Float}
    (finite : ∀ x ∈ numbers, x.isFinite = true) : (numbersLiteral numbers).all isBlank = false := by
  cases numbers with
  | nil => rfl
  | cons first rest =>
      have visible := (isLiteral_numberLiteral (finite first List.mem_cons_self)).visible
      cases rest with
      | nil => simpa [numbersLiteral, List.intercalate] using visible
      | cons second rest =>
          rw [numbersLiteral, List.map_cons, List.map_cons, List.intercalate_cons_cons,
            List.append_assoc, List.all_append, visible, Bool.false_and]
          simp

theorem visible_resolvePiece {text rest : List Char} {piece : Piece}
    (found : Piece.reference? text = some piece) (starts : Piece.Starts text piece rest)
    {place : Place} {later : List Piece} {literal : List Char}
    (read : resolvePiece grid settings place piece later = .ok literal) :
    literal.all isBlank = false := by
  have written : piece.chars.all isBlank = false := by
    obtain ⟨first, more, same, alphanumeric⟩ := starts.begins
    have visible := isBlank_of_isNameChar (Piece.isNameChar_of_isAlphanum alphanumeric)
    rw [same, List.all_cons, visible, Bool.false_and]
  by_cases itself : place.inside = true ∨ Piece.opensCall later = true
  · have same : resolvePiece grid settings place piece later = .ok piece.chars := by
      simp [resolvePiece, itself]
    rwa [← Except.ok.inj (same.symm.trans read)]
  obtain ⟨outside, notName⟩ : place.inside = false ∧ Piece.opensCall later = false := by
    simpa using itself
  simp only [resolvePiece, outside, notName, Bool.or_self, Bool.false_eq_true, if_false] at read
  rcases Piece.reference?_cases found with ⟨token, rfl⟩ | ⟨token, rfl⟩
  · cases reads : place.readsText with
    | true =>
        simp only [rangeLiteral, reads, if_true] at read
        rwa [← Except.ok.inj read]
    | false =>
        rw [reads] at read
        obtain ⟨numbers, finite, rfl, _⟩ := exists_numbers_of_rangeLiteral read
        exact visible_numbersLiteral finite
  · exact (isLiteral_cellLiteral read).visible

theorem all_isBlank_of_resolvePieces (previous : Option Char) (text : List Char) :
    ∀ (place : Place) (resolved : List Char),
      resolvePieces grid settings place (Piece.ofCharsAfter previous text) = .ok resolved →
      resolved.all isBlank = text.all isBlank := by
  induction previous, text using Piece.ofCharsAfter_induction with
  | nil previous =>
      intro place resolved read
      cases read
      rfl
  | plain previous c rest _ ih =>
      intro place resolved read
      obtain ⟨others, restRead, rfl⟩ := resolvePieces_plain_eq_ok_iff.mp read
      rw [List.all_cons, List.all_cons, ih _ _ restRead]
  | reference previous text piece rest _ found starts ih =>
      intro place resolved read
      obtain ⟨literal, pieceRead, others, _, rfl⟩ := resolvePieces_cons_eq_ok_iff.mp read
      obtain ⟨first, more, same, alphanumeric⟩ := starts.begins
      have visible := isBlank_of_isNameChar (Piece.isNameChar_of_isAlphanum alphanumeric)
      rw [List.all_append, visible_resolvePiece found starts pieceRead, starts.text_eq, same,
        List.cons_append, List.all_cons, visible]
      rfl

theorem length_parts_resolve {text resolved : List Char}
    (checked : Script.check 0 false text = .ok ())
    (read : resolve grid settings text = .ok resolved) :
    (Arguments.parts 0 false resolved).length =
      (Arguments.parts 0 false text).length + surplus grid text :=
  length_parts_resolvePieces none text {} 0 [] [] resolved checked rfl rfl rfl read

/-- What acts on each argument of a list by itself, adding to it as its ranges do. -/
structure ActsOnArguments (grid : Grid) (becomes : List Char → List Char → Prop) : Prop where
  comma : ∀ {first rest text}, Script.check 0 false first = .ok () →
    becomes (first ++ ',' :: rest) text →
    ∃ first' rest', becomes first first' ∧ becomes rest rest' ∧ text = first' ++ ',' :: rest'
  checked : ∀ {text result}, Script.check 0 false text = .ok () → becomes text result →
    Script.check 0 false result = .ok ()
  length_parts : ∀ {text result}, Script.check 0 false text = .ok () → becomes text result →
    (Arguments.parts 0 false result).length =
      (Arguments.parts 0 false text).length + surplus grid text
  all_isBlank : ∀ {text result}, becomes text result → result.all isBlank = text.all isBlank

/-- A list of arguments has become a text of as many as it had and as its ranges add, and an
argument to which no range adds stands behind those in front of it and what the ranges there add. -/
def KeepsPlaces (grid : Grid) (becomes : List Char → List Char → Prop) (inner text : List Char) :
    Prop :=
  (Arguments.split text).length =
      (Arguments.split inner).length + ((writtenArguments inner).map (surplus grid)).sum ∧
    ∀ before argument after, writtenArguments inner = before ++ argument :: after →
      surplus grid argument = 0 →
        ∃ result, becomes argument result ∧
          (Arguments.split text)[before.length + (before.map (surplus grid)).sum]? =
            some (trim result)

theorem split_eq_map_writtenArguments (inner : List Char) :
    Arguments.split inner = (writtenArguments inner).map trim := by
  unfold Arguments.split writtenArguments
  split <;> rfl

namespace ActsOnArguments

variable {becomes : List Char → List Char → Prop}

theorem slots (acts : ActsOnArguments grid becomes) {inner : List Char}
    (checked : Script.check 0 false inner = .ok ()) :
    ∀ text, becomes inner text →
      ∃ slots, List.Forall₂ (fun argument places => places.length = 1 + surplus grid argument ∧
            ∃ result, becomes argument result ∧ places = Arguments.parts 0 false result)
          (Arguments.parts 0 false inner) slots ∧
        Arguments.parts 0 false text = slots.flatten := by
  have count {text result : List Char} (checked : Script.check 0 false text = .ok ())
      (alone : Arguments.parts 0 false text = [text]) (same : becomes text result) :
      (Arguments.parts 0 false result).length = 1 + surplus grid text := by
    rw [acts.length_parts checked same, alone]
    rfl
  refine Arguments.arguments_induction ?single ?comma checked
  case single =>
    intro inner checked alone text same
    rw [alone]
    exact ⟨[_], .cons ⟨count checked alone same, text, same, rfl⟩ .nil, by simp⟩
  case comma =>
    intro first rest checked alone _ ih text same
    obtain ⟨first', rest', firstSame, restSame, rfl⟩ := acts.comma checked same
    obtain ⟨others, correspond, split⟩ := ih rest' restSame
    rw [Arguments.parts_append_comma checked, alone,
      Arguments.parts_append_comma (acts.checked checked firstSame), split]
    exact ⟨_ :: others,
      .cons ⟨count checked alone firstSame, first', firstSame, rfl⟩ correspond, by simp⟩

theorem keepsPlaces (acts : ActsOnArguments grid becomes) {inner text : List Char}
    (checked : Script.check 0 false inner = .ok ()) (same : becomes inner text) :
    KeepsPlaces grid becomes inner text := by
  unfold KeepsPlaces
  rw [split_eq_map_writtenArguments inner, List.length_map]
  unfold Arguments.split writtenArguments
  rw [isEmpty_trim, isEmpty_trim, acts.all_isBlank same]
  by_cases blank : inner.all isBlank = true
  · simp [blank]
  rw [if_neg blank, if_neg blank, List.length_map]
  obtain ⟨slots, correspond, split⟩ := acts.slots checked text same
  rw [split]
  clear checked same blank split
  generalize Arguments.parts 0 false inner = arguments at correspond ⊢
  constructor
  · induction correspond with
    | nil => rfl
    | cons here _ ih =>
        rw [List.flatten_cons, List.length_append, ih, here.1, List.map_cons, List.sum_cons,
          List.length_cons]
        omega
  · intro before argument after written single
    induction before generalizing arguments slots with
    | nil =>
        rw [written] at correspond
        obtain ⟨places, others, ⟨length, result, becomes, rfl⟩, _, rfl⟩ :=
          List.forall₂_cons_left_iff.mp correspond
        have noCommas : Arguments.commas result = 0 := by
          rw [Arguments.commas, length, single]
        rw [Arguments.parts_of_commas noCommas]
        exact ⟨result, becomes, rfl⟩
    | cons first before ih =>
        -- the places of the first argument are passed, one and those that its ranges add
        rw [written, List.cons_append] at correspond
        obtain ⟨places, others, ⟨length, _⟩, behind, rfl⟩ := List.forall₂_cons_left_iff.mp correspond
        obtain ⟨result, becomes, place⟩ := ih others _ behind rfl
        refine ⟨result, becomes, ?_⟩
        rw [List.flatten_cons, List.map_append, List.getElem?_append_right (by simp; omega)]
        rw [← place]
        congr 1
        simp
        omega

end ActsOnArguments

theorem actsOnArguments_resolve (grid : Grid) (settings : Settings) :
    ActsOnArguments grid fun text result => resolve grid settings text = .ok result where
  comma checked read := by
    rw [resolve_comma checked] at read
    obtain ⟨first', firstRead, read⟩ := Outcome.bind_eq_ok.mp read
    obtain ⟨rest', restRead, read⟩ := Outcome.bind_eq_ok.mp read
    cases read
    exact ⟨first', rest', firstRead, restRead, rfl⟩
  checked checked read := by rw [(resolve_keeps read).2, checked]
  length_parts checked read := length_parts_resolve checked read
  all_isBlank read := all_isBlank_of_resolvePieces none _ {} _ read

theorem ActsOnArguments.reduces {becomes : List Char → List Char → Prop}
    (acts : ActsOnArguments grid becomes) {call : Script.CallValue}
    (finite : Script.ReturnsFinite call) (limit passes : Nat) :
    ActsOnArguments grid fun text result =>
      ∃ resolved, becomes text resolved ∧ Script.Reduces call limit passes resolved result where
  comma checked same := by
    obtain ⟨resolved, resolves, reduces⟩ := same
    obtain ⟨first, rest, firstResolves, restResolves, rfl⟩ := acts.comma checked resolves
    obtain ⟨first', rest', firstReduces, restReduces, rfl⟩ :=
      reduces.comma (acts.checked checked firstResolves)
    exact ⟨first', rest', ⟨first, firstResolves, firstReduces⟩,
      ⟨rest, restResolves, restReduces⟩, rfl⟩
  checked _ same := by
    obtain ⟨_, _, reduces⟩ := same
    exact reduces.checked finite
  length_parts checked same := by
    obtain ⟨resolved, resolves, reduces⟩ := same
    have commas := reduces.commas_eq finite
    rw [Arguments.commas, Arguments.commas, acts.length_parts checked resolves] at commas
    rename_i text result
    have own := List.length_pos_iff.mpr (Arguments.parts_ne_nil 0 false result)
    have written := List.length_pos_iff.mpr (Arguments.parts_ne_nil 0 false text)
    omega
  all_isBlank same := by
    obtain ⟨resolved, resolves, reduces⟩ := same
    rw [reduces.all_isBlank finite, acts.all_isBlank resolves]

/-! ## The call in its formula -/

theorem Place.alike_behind_opening {front : List Char} (outside : endsQuoted false front = false)
    (numeric : (front.foldl Place.step {}).opensText = false) :
    ((front ++ ['(']).foldl Place.step {}).AlikeWithin 0 {} := by
  have inside : (front.foldl Place.step {}).inside = false := by rw [Place.inside_foldl, outside]
  rw [List.foldl_append]
  refine ⟨?_, fun near => ?_, rfl, fun level within => ?_⟩
  · simp [Place.step, inside]
  · rw [List.append_nil]
    exact nameBehind?_append_of_stops near (stopsName_opening _)
  · obtain rfl : level = 0 := Nat.le_zero.mp within
    simp [Place.step, inside, numeric]

/-- A call in a text resolves to a call of the same name, whose arguments resolve on their own. -/
theorem exists_of_resolve_inner {front name inner back resolved : List Char}
    (outside : endsQuoted false front = false)
    (named : Script.callName? (front ++ name) = some name) (numeric : capitals name ≠ textFunction)
    (checked : Script.check 0 false inner = .ok ())
    (read : resolve grid settings (front ++ name ++ '(' :: (inner ++ ')' :: back)) = .ok resolved) :
    ∃ front' inner' back', resolved = front' ++ name ++ '(' :: (inner' ++ ')' :: back') ∧
      Script.callName? (front' ++ name) = some name ∧ resolve grid settings inner = .ok inner' := by
  have openingCuts : Piece.Cuts '(' := Piece.cuts_of_mem (by decide)
  have closingCuts : Piece.Cuts ')' := Piece.cuts_of_mem (by decide)
  have plain : IsPlain name := isPlain_of_name named
  have whole : endsQuoted false (front ++ name) = false := by
    rw [endsQuoted_append, endsQuoted_plain _ plain, outside]
  have numericPlace : ((front ++ name).foldl Place.step {}).opensText = false := by
    rw [Script.callName?] at named
    simp [Place.opensText, Place.behind_foldl, ← List.reverse_append, named, numeric]
  have alike := Place.alike_behind_opening whole numericPlace
  obtain ⟨start, last, rfl, startRead, lastRead⟩ := exists_of_resolveFrom_cut openingCuts read
  obtain ⟨inside, back', rfl, insideRead, _⟩ := exists_of_resolveFrom_cut closingCuts lastRead
  rw [resolveFrom_last closingCuts (by decide),
    alike.resolveFrom_eq (alike.inside ▸ checked)] at insideRead
  obtain ⟨inner', innerRead, rfl⟩ := Outcome.map_eq_ok.mp insideRead
  unfold resolveFrom at startRead
  rw [Piece.ofCharsAfter_cut openingCuts, Piece.ofCharsAfter_nil] at startRead
  obtain ⟨lead, rfl, names⟩ := exists_of_resolvePieces_opening none (front ++ name) {} [] start
    startRead (.inl fun _ => rfl)
  have leadNamed : Script.callName? lead = some name := by
    rw [← named]
    simpa [Script.callName?] using names
  have leadSplit := (Script.lead_eq_of_callName? leadNamed).1
  refine ⟨Script.beforeName lead name, inner', back', ?_, leadSplit ▸ leadNamed, innerRead⟩
  rw [← leadSplit]
  simp

/-- The arguments of `ROUND`, `ABS`, `POWER`, `SQRT` and `IF` keep their places but for what ranges
add: anywhere in a text the call resolves to one of the same name, whose list of arguments is as
long as it was written and longer by one for each number but the first of each range that stands in
it outside literals and parentheses. An argument without such a range is one argument still, behind
what the arguments in front of it have become. The same holds of the arguments that the function is
given, when the calls among them have been replaced by their values. -/
theorem Calculator.arguments_keep_places (calculator : Calculator) (grid : Grid)
    (lenient : calculator.settings.strictReferences = false) {front name inner back : List Char}
    (outside : endsQuoted false front = false)
    (named : Script.callName? (front ++ name) = some name)
    (positional : capitals name ∈ positionalNames)
    (checked : Script.check 0 false inner = .ok ()) :
    ∃ front' inner' back',
      resolve grid calculator.settings (front ++ name ++ '(' :: (inner ++ ')' :: back)) =
          .ok (front' ++ name ++ '(' :: (inner' ++ ')' :: back')) ∧
        Script.callName? (front' ++ name) = some name ∧
        KeepsPlaces grid
          (fun argument result => resolve grid calculator.settings argument = .ok result)
          inner inner' ∧
        ∀ passes given,
          Script.Reduces (calculator.registry.call calculator.settings)
              calculator.settings.nestingLimit passes inner' given →
            KeepsPlaces grid
              (fun argument result => ∃ resolved,
                resolve grid calculator.settings argument = .ok resolved ∧
                  Script.Reduces (calculator.registry.call calculator.settings)
                    calculator.settings.nestingLimit passes resolved result)
              inner given := by
  have numeric : capitals name ≠ textFunction := by
    intro same
    rw [same] at positional
    revert positional
    decide
  have acts := actsOnArguments_resolve grid calculator.settings
  have finite := Script.returnsFinite_call calculator.registry calculator.settings
  obtain ⟨resolved, read⟩ := @exists_of_resolve_lenient grid _ lenient
    (front ++ name ++ '(' :: (inner ++ ')' :: back))
  obtain ⟨front', inner', back', rfl, sameName, innerRead⟩ :=
    exists_of_resolve_inner outside named numeric checked read
  refine ⟨front', inner', back', read, sameName, acts.keepsPlaces checked innerRead, ?_⟩
  intro passes given reduces
  exact (acts.reduces finite _ passes).keepsPlaces checked ⟨inner', innerRead, reduces⟩

/-- The places of `ROUND` are the third argument when the range in front of them has two numbers. -/
theorem Calculator.arguments_keep_places_of_pair :
    let grid : Grid := ⟨[[.number 1.25], [.number 2.0]]⟩
    ∃ front inner back, resolve grid {} "1+ROUND(A1:A2,1)".toList =
        .ok (front ++ "ROUND".toList ++ '(' :: (inner ++ ')' :: back)) ∧
      (Arguments.split inner).length = 3 ∧ (Arguments.split inner)[2]? = some "1".toList := by
  intro grid
  have written : writtenArguments "A1:A2,1".toList = ["A1:A2".toList, "1".toList] := by decide
  have added : ["A1:A2".toList, "1".toList].map (surplus grid) = [1, 0] := by decide +kernel
  obtain ⟨front, inner, back, read, _, ⟨length, places⟩, _⟩ :=
    @Calculator.arguments_keep_places {} grid rfl "1+".toList "ROUND".toList "A1:A2,1".toList []
      (by decide) (by decide) (by decide) (by decide)
  refine ⟨front, inner, back, read, ?_, ?_⟩
  · rw [length, written, added]
    decide
  · obtain ⟨result, single, place⟩ := places ["A1:A2".toList] "1".toList [] written (by decide +kernel)
    have alone : resolve grid {} "1".toList = .ok "1".toList := by decide +kernel
    obtain rfl := Except.ok.inj (alone.symm.trans single)
    have shift : (["A1:A2".toList].map (surplus grid)).sum = 1 := by decide +kernel
    rw [shift] at place
    exact place

/-- A range of two numbers is one argument too many for `IF`, though its value is not needed. -/
theorem Calculator.arguments_shift_behind_pair :
    let grid : Grid := ⟨[[.number 1.0], [.number 2.0]]⟩
    (Arguments.split "1,7,A1:A2".toList).length = 3 ∧
      resolve grid {} "IF(1,7,A1:A2)".toList = .ok "IF(1,7,1,2)".toList ∧
      (Arguments.split "1,7,1,2".toList).length = 4 ∧
      Calculator.evaluate {} "=IF(1,7,A1:A2)".toList grid =
        .error (.invalidExpression (.argumentCount "IF".toList (.between 2 3) 4)) := by
  decide +kernel

end Worksheet
