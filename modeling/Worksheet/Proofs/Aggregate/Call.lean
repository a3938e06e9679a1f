import Mathlib
import Worksheet.Proofs.Tree.Evaluation

/-!
# A call of a function

A formula that is one call of a numeric function on a text without literals and parentheses has
nothing wrong with it. It comes to what the function makes of the text that its arguments resolve
to, read back from a literal.
-/

set_option autoImplicit false

namespace Worksheet

def NumericFunction.callText (function : NumericFunction) (text : List Char) : List Char :=
  function.name ++ '(' :: (text ++ [')'])

namespace NumericFunction

variable {function : NumericFunction} {text : List Char}

theorem callText_append (function : NumericFunction) (text rest : List Char) :
    function.callText text ++ rest = function.name ++ '(' :: (text ++ ')' :: rest) := by
  simp [callText]

theorem check_callText (plain : IsPlain text) (depth : Nat) (rest : List Char) :
    Script.check depth false (function.callText text ++ rest) = Script.check depth false rest := by
  have opening (rest : List Char) :
      Script.check depth false ('(' :: rest) = Script.check (depth + 1) false rest := by
    simp [Script.check]
  rw [callText_append, Script.check_plain depth false function.isPlain_name, opening,
    Script.check_plain (depth + 1) false plain]
  simp [Script.check]

theorem noQuote_callText (plain : IsPlain text) : '"' ∉ function.callText text := by
  intro member
  simp only [callText, List.mem_append, List.mem_cons, List.not_mem_nil, or_false] at member
  rcases member with inName | isOpening | inText | isClosing
  · exact (function.isPlain_name _ inName).1 rfl
  · revert isOpening
    decide
  · exact (plain _ inText).1 rfl
  · revert isClosing
    decide

theorem callsFunctions_callText (plain : IsPlain text) {behind : List Char}
    (stops : StopsName behind) : Tree.CallsFunctions behind (function.callText text) := by
  have name := @Tree.callsFunctions_of_plain behind function.name fun c member =>
    (function.isPlain_name c member).2.1
  refine name.append (Tree.CallsFunctions.call stops function ?_)
  refine Tree.callsFunctions_of_plain _ fun c member => ?_
  rcases List.mem_append.mp member with inside | closing
  · exact (plain c inside).2.1
  · rw [List.mem_singleton.mp closing]
    decide

theorem isBlank_head_callText {rest : List Char} :
    ∀ c ∈ (function.callText text ++ rest).head?, isBlank c = false := by
  intro c member
  have inName : c ∈ function.name := by
    cases function <;> (obtain rfl := Option.some.inj member; decide)
  exact isBlank_of_isNameChar (Piece.isNameChar_of_isAlphanum
    (Piece.isAlphanum_of_isAlpha c (function.isAlpha_of_mem_name inName)))

theorem isBlank_last_callText {rest : List Char} :
    ∀ c ∈ (rest ++ function.callText text).getLast?, isBlank c = false := by
  intro c member
  have ending : rest ++ function.callText text = (rest ++ function.name ++ '(' :: text) ++ [')'] := by
    simp [callText]
  rw [ending, List.getLast?_concat] at member
  obtain rfl := Option.some.inj member
  decide

end NumericFunction

theorem Calculator.evaluate_call {settings : Settings} {grid : Grid} {text literal : List Char}
    (plain : IsPlain text) (operand : IsOperandText literal) (positive : 1 ≤ settings.nestingLimit)
    {function : NumericFunction}
    (resolved : resolve grid settings (function.callText text) = .ok (function.callText literal)) :
    (⟨settings, .standard⟩ : Calculator).evaluate ('=' :: function.callText text) grid =
      Registry.standard.call settings function.name (Arguments.split literal) >>=
        fun value => Calculator.result value.literal := by
  have checked := @NumericFunction.check_callText function text plain 0 []
  have first := @NumericFunction.isBlank_head_callText function text []
  rw [List.append_nil] at checked first
  obtain ⟨body, clean⟩ := Formula.check_of_calls (by simp [NumericFunction.callText]) first
    (@NumericFunction.isBlank_last_callText function text []) (NumericFunction.noQuote_callText plain)
    checked (NumericFunction.callsFunctions_callText plain stopsName_nil)
  have reduced : (⟨settings, .standard⟩ : Calculator).reduce (function.callText literal) = _ :=
    Calculator.reduce_call ⟨settings, .standard⟩ function.nameBehind?_name operand positive
  rw [Calculator.evaluate, Calculator.check, clean]
  simp only [body, resolved, Outcome.ok_bind, reduced]
  cases Registry.standard.call settings function.name (Arguments.split literal) <;> rfl

end Worksheet
