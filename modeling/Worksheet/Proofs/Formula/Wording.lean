import Mathlib
import Worksheet.Proofs.Formula.Naming
import Worksheet.Proofs.Formula.Strictness
import Worksheet.Proofs.Reference.Part
import Worksheet.Proofs.Text.Case

/-!
# The wording of errors

What a formula shows when it fails is one of a few sentences. A sentence consists of fixed words and
of places for numbers, for a name and for a reference. Whatever the cells and the literals hold,
only the formula fills the last two: with a name that it calls or with a reference that it writes,
both in capitals. So nothing is shown that markup would take for its own.
-/

set_option autoImplicit false

namespace Worksheet

/-- An identifier stands as a whole in front of an opening parenthesis outside literals. -/
structure CallsIdentifier (text name : List Char) : Prop where
  identifier : IsIdentifier name
  written : ∃ before after, text = before ++ (name ++ '(' :: after) ∧
    endsQuoted false before = false ∧ ∀ c ∈ before.getLast?, isNameChar c = false

structure WritesReference (text token : List Char) : Prop where
  members : ∀ c ∈ token, c.isAlphanum = true ∨ c = ':' ∨ isBlank c = true
  written : ∃ before piece after, Piece.ofChars text = before ++ piece :: after ∧
    endsQuoted false (before.flatMap Piece.chars) = false ∧ (∀ c, piece ≠ .plain c) ∧
    piece.chars = token

theorem callsIdentifier_of_mem {text name : List Char} (called : name ∈ callNames text) :
    CallsIdentifier text name := by
  rw [callNames, ← namesFrom_nameBehind?] at called
  obtain ⟨before, after, rfl, outside, found⟩ := mem_namesFrom.mp called
  rw [List.append_nil] at found
  obtain ⟨front, same, stops⟩ := eq_append_of_nameBehind? found
  have forwards : before = front.reverse ++ name := by
    have reversed := congrArg List.reverse same
    simpa using reversed
  have plain : IsPlain name := isPlain_of_name found
  refine ⟨isIdentifier_of_nameBehind? found, front.reverse, after, ?_, ?_, ?_⟩
  · rw [forwards, List.append_assoc]
  · rwa [forwards, endsQuoted_append, endsQuoted_plain _ plain] at outside
  · rw [List.getLast?_reverse]
    exact stops

namespace FormulaError

def name? : FormulaError → Option (List Char)
  | invalidExpression fault => fault.name?
  | unknownFunction name => some name
  | _ => none

def token? : FormulaError → Option (List Char)
  | malformedReference token => some token
  | _ => none

/-- What the error mentions is written in the text. -/
structure IsAbout (text : List Char) (error : FormulaError) : Prop where
  name : ∀ name, error.name? = some name →
    ∃ identifier, CallsIdentifier text identifier ∧ name = capitals identifier
  token : ∀ token, error.token? = some token →
    ∃ written, WritesReference text written ∧ token = capitals written

variable {text : List Char} {error : FormulaError}

theorem isAbout_of_none (noName : error.name? = none) (noToken : error.token? = none) :
    error.IsAbout text := by
  constructor
  · intro name mentioned
    rw [noName] at mentioned
    cases mentioned
  · intro token mentioned
    rw [noToken] at mentioned
    cases mentioned

theorem isAbout_of_called {identifier : List Char} (called : identifier ∈ callNames text)
    (mentions : error.name? = some (capitals identifier)) (noToken : error.token? = none) :
    error.IsAbout text := by
  constructor
  · intro name mentioned
    rw [mentions] at mentioned
    exact ⟨identifier, callsIdentifier_of_mem called, (Option.some.inj mentioned).symm⟩
  · intro token mentioned
    rw [noToken] at mentioned
    cases mentioned

end FormulaError

theorem Expression.isAbout_of_valueOf {text argument : List Char} {error : FormulaError}
    (failed : valueOf argument = .error error) : error.IsAbout text := by
  have none : ∀ error ∈ errors, error.name? = none ∧ error.token? = none := by decide
  obtain ⟨noName, noToken⟩ := none error (mem_errors_of_valueOf failed)
  exact FormulaError.isAbout_of_none noName noToken

theorem Registry.isAbout_of_call {settings : Settings} {text name : List Char}
    {arguments : List (List Char)} {error : FormulaError} (called : name ∈ callNames text)
    (failed : standard.call settings name arguments = .error error) : error.IsAbout text := by
  rcases call_standard_eq_error failed with rfl | ⟨fault, rfl, own⟩ | ⟨argument, _, failed⟩
  · exact FormulaError.isAbout_of_called called rfl rfl
  · exact FormulaError.isAbout_of_called called own rfl
  · exact Expression.isAbout_of_valueOf failed

theorem isAbout_of_resolve {grid : Grid} {settings : Settings} {text : List Char}
    {error : FormulaError} (failed : resolve grid settings text = .error error) :
    error.IsAbout text := by
  obtain ⟨name, rfl⟩ := resolve_eq_error failed
  cases strict : settings.strictReferences with
  | false =>
      obtain ⟨resolved, read⟩ := @exists_of_resolve_lenient grid settings strict text
      rw [read] at failed
      cases failed
  | true =>
      obtain ⟨before, piece, after, first, rfl⟩ :=
        (resolve_strict_eq_error_iff strict text name).mp failed
      have reference : ∀ c, piece ≠ .plain c := by
        rintro c rfl
        exact first.dangles.nothing
      have member : piece ∈ Piece.ofChars text := first.split ▸ by simp
      have outside := first.dangles.outside
      rw [Place.inside_foldl] at outside
      have written : WritesReference text piece.chars := by
        refine ⟨fun c inside => ?_, before, piece, after, first.split, outside, reference, rfl⟩
        have referenceChar := isReferenceChar_of_mem none text piece member reference c inside
        simpa [Piece.isReferenceChar, or_assoc] using referenceChar
      constructor
      · intro name mentioned
        cases mentioned
      · intro token mentioned
        exact ⟨piece.chars, written, (Option.some.inj mentioned).symm⟩

theorem Formula.isAbout_of_mem_check {registry : Registry} {formula : List Char}
    {error : FormulaError} (member : error ∈ check registry formula) :
    error.IsAbout (body formula) := by
  unfold check at member
  simp only [] at member
  split at member
  · obtain rfl := List.mem_singleton.mp member
    exact FormulaError.isAbout_of_none rfl rfl
  · rcases List.mem_append.mp member with outside | unknown
    · have constant : error = .invalidExpression .unterminatedString ∨
          error = .unbalancedParentheses := by
        rcases List.mem_append.mp outside with quotes | parentheses
        · left
          split at quotes
          · exact List.mem_singleton.mp quotes
          · cases quotes
        · right
          split at parentheses
          · cases parentheses
          · exact List.mem_singleton.mp parentheses
      rcases constant with rfl | rfl
      · exact FormulaError.isAbout_of_none rfl rfl
      · exact FormulaError.isAbout_of_none rfl rfl
    · obtain ⟨name, listed, rfl⟩ := List.mem_map.mp unknown
      rw [unknownFunctions, List.mem_eraseDups, List.mem_filter] at listed
      obtain ⟨identifier, found, rfl⟩ := List.mem_map.mp listed.1
      exact FormulaError.isAbout_of_called (mem_callNames_of_called found) rfl rfl

theorem Calculator.isAbout_of_evaluate {settings : Settings} {formula : List Char} {grid : Grid}
    {error : FormulaError}
    (failed : Calculator.evaluate ⟨settings, .standard⟩ formula grid = .error error) :
    error.IsAbout (Formula.body formula) := by
  cases complaints : Calculator.check ⟨settings, .standard⟩ formula with
  | cons first more =>
      unfold Calculator.evaluate at failed
      rw [complaints] at failed
      obtain rfl := Except.error.inj failed
      have member : first ∈ Formula.check .standard formula := by
        change first ∈ Calculator.check ⟨settings, .standard⟩ formula
        exact complaints ▸ List.mem_cons_self
      exact Formula.isAbout_of_mem_check member
  | nil =>
      rcases evaluate_eq_error_cases complaints failed with failed | ⟨_, _, _, _, failed⟩
      · exact isAbout_of_resolve failed
      rcases failed with rfl | ⟨dispatch, _, called, outcome⟩ | ⟨reduced, _, failed⟩
      · exact FormulaError.isAbout_of_none rfl rfl
      · exact Registry.isAbout_of_call called outcome
      · rcases result_eq_error failed with ⟨fault, rfl | rfl, rfl⟩ | failed
        · exact FormulaError.isAbout_of_none rfl rfl
        · exact FormulaError.isAbout_of_none rfl rfl
        · exact Expression.isAbout_of_valueOf failed

/-! ## Sentences -/

namespace Wording

/-- A part of a sentence: fixed words, or the place of something that varies. -/
inductive Part where
  | words (text : String)
  | number
  | name
  | reference
deriving DecidableEq

def faults : List String :=
  ["empty formula", "empty expression", "unterminated string literal",
    "unexpected character in expression", "malformed number", "unexpected token",
    "unexpected operator", "unexpected end of expression", "text used in arithmetic",
    "result is not a finite number", "expected a number"]

def arities : List (List Part) :=
  [[.number], [.number, .words " to ", .number], [.words "at least ", .number]]

def blames : List (List Part) :=
  arities.map (fun arity =>
      .words " expects " :: (arity ++ [.words " argument(s), got ", .number])) ++
    [[.words " of an empty set is undefined"], [.words " expects a numeric argument"],
      [.words " produced a non-finite number"]]

/-- The sentences about formulas that fail. -/
def sentences : List (List Part) :=
  faults.map (fun fault => [.words "Invalid expression: ", .words fault]) ++
    blames.map (fun blame => .words "Invalid expression: " :: .name :: blame) ++
    [[.words "Unknown function: ", .name], [.words "Unbalanced parentheses"],
      [.words "Division by zero"],
      [.words "Formula too complex (nesting deeper than ", .number, .words ")"],
      [.words "Malformed reference: ", .reference]]

/-- A text spells a sentence if its words are those of the sentence and a formula fills the places
between them. -/
inductive Spells (formula : List Char) : List Part → String → Prop
  | nil : Spells formula [] ""
  | words (text : String) {rest : List Part} {behind : String} :
      Spells formula rest behind → Spells formula (.words text :: rest) (text ++ behind)
  | number (n : Nat) {rest : List Part} {behind : String} :
      Spells formula rest behind → Spells formula (.number :: rest) (toString n ++ behind)
  | name {identifier : List Char} {rest : List Part} {behind : String} :
      CallsIdentifier formula identifier → Spells formula rest behind →
        Spells formula (.name :: rest) (String.ofList (capitals identifier) ++ behind)
  | reference {token : List Char} {rest : List Part} {behind : String} :
      WritesReference formula token → Spells formula rest behind →
        Spells formula (.reference :: rest) (String.ofList (capitals token) ++ behind)

variable {formula : List Char}

theorem Spells.single (text : String) : Spells formula [.words text] text := by
  have spelled := @Spells.words formula text [] "" .nil
  rwa [String.append_empty] at spelled

theorem Spells.arity (arity : Arity) : ∃ parts ∈ arities, ∀ {rest : List Part} {behind : String},
    Spells formula rest behind → Spells formula (parts ++ rest) (arity.inWords ++ behind) := by
  rw [Arity.inWords]
  cases arity.most with
  | none =>
      refine ⟨[.words "at least ", .number], by simp [arities], fun spelled => ?_⟩
      rw [String.append_assoc]
      exact .words _ (.number _ spelled)
  | some most =>
      by_cases fixed : most = arity.least
      · refine ⟨[.number], by simp [arities], fun spelled => ?_⟩
        simp only [if_pos fixed]
        exact .number _ spelled
      · refine ⟨[.number, .words " to ", .number], by simp [arities], fun spelled => ?_⟩
        simp only [if_neg fixed, String.append_assoc]
        exact .number _ (.words _ (.number _ spelled))

theorem exists_sentence_of_blame {identifier : List Char}
    (called : CallsIdentifier formula identifier) {blame : List Part} (listed : blame ∈ blames)
    {behind : String} (spelled : Spells formula blame behind) :
    ∃ sentence ∈ sentences, Spells formula sentence
      ("Invalid expression: " ++ (String.ofList (capitals identifier) ++ behind)) := by
  refine ⟨_, ?_, .words _ (.name called spelled)⟩
  apply List.mem_append_left
  exact List.mem_append_right _ (List.mem_map_of_mem listed)

/-- Every fault is worded as a sentence. The name that it mentions fills the place for a name. -/
theorem exists_sentence_of_fault (fault : Fault)
    (called : ∀ name, fault.name? = some name →
      ∃ identifier, CallsIdentifier formula identifier ∧ name = capitals identifier) :
    ∃ sentence ∈ sentences, Spells formula sentence ("Invalid expression: " ++ fault.message) := by
  have constant (listed : fault.message ∈ faults) :
      ∃ sentence ∈ sentences,
        Spells formula sentence ("Invalid expression: " ++ fault.message) := by
    refine ⟨_, ?_, .words _ (.single _)⟩
    apply List.mem_append_left
    exact List.mem_append_left _ (List.mem_map_of_mem listed)
  cases fault with
  | argumentCount name arity count =>
      obtain ⟨identifier, written, rfl⟩ := called name rfl
      obtain ⟨parts, listed, spells⟩ := @Spells.arity formula arity
      have spelled := Spells.words " expects "
        (spells (.words " argument(s), got " (.number count .nil)))
      have worded := exists_sentence_of_blame written
        (List.mem_append_left _ (List.mem_map_of_mem listed)) spelled
      simpa only [Fault.message, String.append_assoc, String.append_empty] using worded
  | emptySet name =>
      obtain ⟨identifier, written, rfl⟩ := called name rfl
      exact exists_sentence_of_blame written (by simp [blames]) (.single _)
  | numericArgument name =>
      obtain ⟨identifier, written, rfl⟩ := called name rfl
      exact exists_sentence_of_blame written (by simp [blames]) (.single _)
  | nonFiniteResult name =>
      obtain ⟨identifier, written, rfl⟩ := called name rfl
      exact exists_sentence_of_blame written (by simp [blames]) (.single _)
  | _ => exact constant (by simp [faults, Fault.message])

theorem exists_sentence {error : FormulaError} (about : error.IsAbout formula) :
    ∃ sentence ∈ sentences, Spells formula sentence error.message := by
  cases error with
  | invalidExpression fault => exact exists_sentence_of_fault fault about.name
  | unknownFunction name =>
      obtain ⟨identifier, written, rfl⟩ := about.name name rfl
      have spelled := Spells.words "Unknown function: " (.name written .nil)
      rw [String.append_empty] at spelled
      exact ⟨_, by simp [sentences], spelled⟩
  | unbalancedParentheses => exact ⟨_, by simp [sentences], .single "Unbalanced parentheses"⟩
  | divisionByZero => exact ⟨_, by simp [sentences], .single "Division by zero"⟩
  | tooComplex limit =>
      have spelled := @Spells.words formula "Formula too complex (nesting deeper than " _ _
        (.number limit (.single ")"))
      rw [← String.append_assoc] at spelled
      exact ⟨_, by simp [sentences], spelled⟩
  | malformedReference token =>
      obtain ⟨token, written, rfl⟩ := about.token token rfl
      have spelled := Spells.words "Malformed reference: " (.reference written .nil)
      rw [String.append_empty] at spelled
      exact ⟨_, by simp [sentences], spelled⟩

/-- Tells whether a character is harmless in markup: it is not one of `<`, `>`, `&` and the quotes,
and it is an ASCII character or a blank. -/
def isHarmless (c : Char) : Bool :=
  !(['<', '>', '&', '"', '\''].contains c) && (c.toNat < 128 || isBlank c)

theorem ignoresCase_isHarmless : IgnoresCase isHarmless :=
  ignoresCase_of_letters (by decide)

theorem isHarmless_of_isNameChar {c : Char} (member : isNameChar c = true) :
    isHarmless c = true := by
  have bounds := bounds_of_isNameChar member
  have small : c.toNat < 128 := by omega
  have apart : c ≠ '<' ∧ c ≠ '>' ∧ c ≠ '&' ∧ c ≠ '"' ∧ c ≠ '\'' := by
    refine ⟨?_, ?_, ?_, ?_, ?_⟩ <;> (rintro rfl; revert member; decide)
  simp [isHarmless, apart, small]

theorem isHarmless_of_isBlank {c : Char} (blank : isBlank c = true) : isHarmless c = true := by
  have apart : c ≠ '<' ∧ c ≠ '>' ∧ c ≠ '&' ∧ c ≠ '"' ∧ c ≠ '\'' := by
    refine ⟨?_, ?_, ?_, ?_, ?_⟩ <;> (rintro rfl; revert blank; decide)
  simp [isHarmless, apart, blank]

theorem isHarmless_capitals {text : List Char} (harmless : ∀ c ∈ text, isHarmless c = true) :
    ∀ c ∈ capitals text, isHarmless c = true := by
  intro c member
  obtain ⟨d, inText, rfl⟩ := List.mem_map.mp member
  rw [ignoresCase_isHarmless]
  exact harmless d inText

theorem isHarmless_identifier {name : List Char} (called : CallsIdentifier formula name) :
    ∀ c ∈ name, isHarmless c = true := by
  obtain ⟨first, rest, rfl, begins, members⟩ := called.identifier
  intro c member
  apply isHarmless_of_isNameChar
  rcases List.mem_cons.mp member with rfl | inRest
  · rcases begins with letter | rfl
    · simp [isNameChar, Char.isAlphanum, letter]
    · decide
  · simpa [isNameChar] using members c inRest

theorem isHarmless_reference {token : List Char} (written : WritesReference formula token) :
    ∀ c ∈ token, isHarmless c = true := by
  intro c member
  rcases written.members c member with alphanumeric | rfl | blank
  · exact isHarmless_of_isNameChar (Piece.isNameChar_of_isAlphanum alphanumeric)
  · decide
  · exact isHarmless_of_isBlank blank

theorem isHarmless_number (n : Nat) : ∀ c ∈ (toString n).toList, isHarmless c = true := by
  intro c member
  have digit : c.isDigit = true := isDigit_of_mem_digitChars (by simpa [digitChars] using member)
  apply isHarmless_of_isNameChar
  simp [isNameChar, Char.isAlphanum, digit]

def Part.isHarmless : Part → Bool
  | words text => text.toList.all Wording.isHarmless
  | _ => true

theorem isHarmless_words {sentence : List Part} (listed : sentence ∈ sentences) {text : String}
    (part : .words text ∈ sentence) : ∀ c ∈ text.toList, isHarmless c = true := by
  have all : ∀ sentence ∈ sentences, ∀ part ∈ sentence, part.isHarmless = true := by
    decide +kernel
  exact List.all_eq_true.mp (all sentence listed (.words text) part)

theorem Spells.isHarmless {sentence : List Part} {text : String}
    (words : ∀ {word}, Part.words word ∈ sentence → ∀ c ∈ word.toList, Wording.isHarmless c = true)
    (spelled : Spells formula sentence text) : ∀ c ∈ text.toList, Wording.isHarmless c = true := by
  induction spelled with
  | nil => simp
  | words word _ ih =>
      rw [String.toList_append, List.forall_mem_append]
      exact ⟨words List.mem_cons_self, ih fun member => words (List.mem_cons_of_mem _ member)⟩
  | number n _ ih =>
      rw [String.toList_append, List.forall_mem_append]
      exact ⟨isHarmless_number n, ih fun member => words (List.mem_cons_of_mem _ member)⟩
  | name called _ ih =>
      rw [String.toList_append, List.forall_mem_append, String.toList_ofList]
      exact ⟨isHarmless_capitals (isHarmless_identifier called),
        ih fun member => words (List.mem_cons_of_mem _ member)⟩
  | reference written _ ih =>
      rw [String.toList_append, List.forall_mem_append, String.toList_ofList]
      exact ⟨isHarmless_capitals (isHarmless_reference written),
        ih fun member => words (List.mem_cons_of_mem _ member)⟩

end Wording

/-- A formula that fails shows one of the sentences. The places in it are filled with numbers, with
names that the formula calls and with references that it writes outside literals, so that nothing is
shown that markup would take for its own, whatever the formula and the cells hold. -/
theorem Calculator.evaluate_shows_sentence (settings : Settings) (formula : List Char) (grid : Grid)
    {error : FormulaError}
    (failed : Calculator.evaluate ⟨settings, .standard⟩ formula grid = .error error) :
    (∃ sentence ∈ Wording.sentences, ∃ text,
        Wording.Spells (Formula.body formula) sentence text ∧ error.shown = "#ERROR: " ++ text) ∧
      ∀ c ∈ error.shown.toList, Wording.isHarmless c = true := by
  obtain ⟨sentence, listed, spelled⟩ := Wording.exists_sentence (isAbout_of_evaluate failed)
  refine ⟨⟨sentence, listed, error.message, spelled, rfl⟩, ?_⟩
  have mark : (Wording.Part.words "#ERROR: ").isHarmless = true := by decide +kernel
  rw [FormulaError.shown, String.toList_append, List.forall_mem_append]
  exact ⟨List.all_eq_true.mp mark, spelled.isHarmless (Wording.isHarmless_words listed)⟩

/-- The cell holds the text that cannot be rounded, and only the name is shown. -/
theorem Calculator.evaluate_shows_sentence_of_markup :
    (∃ sentence ∈ Wording.sentences, ∃ text,
        Wording.Spells (Formula.body "=round(A1)".toList) sentence text ∧
          FormulaError.shown (.invalidExpression (.numericArgument "ROUND".toList)) =
            "#ERROR: " ++ text) ∧
      ∀ c ∈ (FormulaError.shown (.invalidExpression (.numericArgument "ROUND".toList))).toList,
        Wording.isHarmless c = true :=
  evaluate_shows_sentence {} "=round(A1)".toList ⟨[[.text "<b>\"é\"</b>".toList]]⟩
    (by decide +kernel)

end Worksheet
