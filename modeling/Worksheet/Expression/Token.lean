import Worksheet.Expression.Basic

/-!
# Tokens of expressions

An expression is read from tokens: numbers, quoted literals, operators and parentheses, with
blanks between them or none. A number is a run of digits and points without a sign and without an
exponent.
-/

set_option autoImplicit false

namespace Worksheet

inductive Token where
  | number (x : Float)
  | text (content : List Char)
  | operator (operator : Operator)
  | opening
  | closing
deriving DecidableEq

namespace Token

def isNumberChar (c : Char) : Bool :=
  c.isDigit || c == '.'

/-- Reads an operator or a parenthesis at the start of a text; the longer symbol wins. -/
def symbol? : List Char → Option (Token × List Char)
  | '+' :: rest => some (operator .add, rest)
  | '-' :: rest => some (operator .subtract, rest)
  | '*' :: rest => some (operator .multiply, rest)
  | '/' :: rest => some (operator .divide, rest)
  | '(' :: rest => some (opening, rest)
  | ')' :: rest => some (closing, rest)
  | '=' :: rest => some (operator (.compare .equal), rest)
  | '<' :: '>' :: rest => some (operator (.compare .notEqual), rest)
  | '<' :: '=' :: rest => some (operator (.compare .atMost), rest)
  | '<' :: rest => some (operator (.compare .less), rest)
  | '>' :: '=' :: rest => some (operator (.compare .atLeast), rest)
  | '>' :: rest => some (operator (.compare .greater), rest)
  | _ => none

/-- Reads the token at the start of a text that starts with no blank. -/
def first? (text : List Char) : Except Fault (Token × List Char) :=
  match text with
  | '"' :: rest =>
      match takeQuoted rest with
      | some (content, after) => .ok (Token.text content, after)
      | none => .error .unterminatedString
  | _ =>
      match text.takeWhile isNumberChar with
      | [] => (symbol? text).elim (.error .unexpectedCharacter) .ok
      | digits =>
          match Numeral.magnitude? digits with
          | some magnitude => .ok (number (magnitude.toFloat false), text.dropWhile isNumberChar)
          | none => .error .malformedNumber

theorem symbol?_length {text rest : List Char} {token : Token}
    (found : symbol? text = some (token, rest)) : rest.length < text.length := by
  unfold symbol? at found
  split at found <;>
    simp only [Option.some.injEq, Prod.mk.injEq, reduceCtorEq] at found <;>
    (obtain ⟨_, rfl⟩ := found; simp only [List.length_cons]; omega)

theorem first?_length {text rest : List Char} {token : Token}
    (found : first? text = .ok (token, rest)) : rest.length < text.length := by
  unfold first? at found
  split at found
  · split at found
    · rename_i opened _ _ _ read
      have shorter := takeQuoted_length read
      simp only [Except.ok.injEq, Prod.mk.injEq] at found
      simp only [List.length_cons, ← found.2]
      omega
    · simp at found
  · split at found
    · cases symbol : symbol? text with
      | none => simp [symbol] at found
      | some result =>
          obtain ⟨read, left⟩ := result
          simp only [symbol, Option.elim_some, Except.ok.injEq, Prod.mk.injEq] at found
          rw [← found.2]
          exact symbol?_length symbol
    · rename_i digits nonempty
      split at found
      · simp only [Except.ok.injEq, Prod.mk.injEq] at found
        rw [← found.2]
        have whole := congrArg List.length
          (List.takeWhile_append_dropWhile (p := isNumberChar) (l := text))
        have positive := List.length_pos_iff.mpr nonempty
        rw [List.length_append] at whole
        omega
      · simp at found

/-- The tokens of a text, or the first fault in it. -/
def ofText (text : List Char) : Except Fault (List Token) :=
  match text with
  | [] => .ok []
  | c :: rest =>
      if isBlank c then ofText rest
      else
        match _ : first? (c :: rest) with
        | .error fault => .error fault
        | .ok (token, after) => (ofText after).map (token :: ·)
termination_by text.length
decreasing_by
  · simp
  · exact first?_length ‹_›

end Token

end Worksheet
