import Mathlib
import Worksheet.Proofs.Expression.Spacing

/-!
# Literals as tokens

A literal is one token. The reader of tokens and the reader of whole literals are apart, and they
accept the same texts: a text is read as the one token of a text exactly when it is its literal
with blanks around it or none. Parentheses around an expression, a literal for one, change nothing
about what it comes to.
-/

set_option autoImplicit false

namespace Worksheet

namespace Token

theorem isSpelledBy_text_iff {content word : List Char} :
    (text content).IsSpelledBy word ↔ word = quote content := by
  constructor
  · intro spelled
    cases leads_of_first? spelled with
    | quoted opened read same =>
        obtain rfl := Token.text.inj same
        rw [opened, quote, takeQuoted_eq_some_nil_iff.mp read]
    | number _ _ _ same => cases same
    | symbol member _ => simp [symbols] at member
  · rintro rfl
    exact isSpelledBy_text content

theorem ofText_eq_text_iff {text content : List Char} :
    ofText text = .ok [.text content] ↔ trim text = quote content := by
  constructor
  · intro read
    obtain ⟨words, spelled, spaced⟩ := (lexed_of_ofText read).exists_words
    obtain ⟨word, others, single, rest, rfl⟩ := List.forall₂_cons_left_iff.mp spelled
    obtain rfl := List.forall₂_nil_left_iff.mp rest
    obtain rfl := isSpelledBy_text_iff.mp single
    cases spaced with
    | word frontBlank spaced =>
        cases spaced with
        | blanks backBlank =>
            rw [List.append_assoc, trim_around frontBlank backBlank, trim_quote]
  · intro same
    obtain ⟨front, back, whole, frontBlank, backBlank⟩ := exists_blanks_of_trim text
    have spaced : Spaced [quote content] text := by
      rw [whole, same, ← List.append_assoc]
      exact .word frontBlank (.blanks backBlank)
    have spelled : List.Forall₂ IsSpelledBy [.text content] [quote content] :=
      .cons (isSpelledBy_text_iff.mpr rfl) .nil
    exact ofText_of_spaced spelled (List.isChain_singleton _) spaced

theorem ofText_group {text : List Char} {tokens : List Token} (read : ofText text = .ok tokens) :
    ofText ('(' :: (text ++ [')'])) = .ok (.opening :: (tokens ++ [.closing])) := by
  have apart : Apart text [')'] :=
    Apart.of_head (by decide) (fun numeric => absurd numeric (by decide)) []
  have opening := @ofText_symbol '(' (text ++ [')']) .opening (by decide) (by decide) (by decide) rfl
  rw [opening, ofText_append (lexed_of_ofText read).endsQuoted apart, read, ofText_closing]
  rfl

end Token

namespace Expression

def grouped (inner : Expression) : Nat → Expression
  | 0 => inner
  | count + 1 => .group (inner.grouped count)

variable {expression : Expression}

theorem proper_grouped (proper : expression.Proper) (count : Nat) :
    (expression.grouped count).Proper := by
  induction count with
  | zero => exact proper
  | succ count ih => exact ih

theorem nesting_grouped (expression : Expression) (count : Nat) :
    (expression.grouped count).nesting = expression.nesting + count := by
  induction count with
  | zero => rfl
  | succ count ih => rw [grouped, nesting, ih, Nat.add_assoc]

theorem eval_grouped (expression : Expression) (count : Nat) :
    (expression.grouped count).eval = expression.eval := by
  induction count with
  | zero => rfl
  | succ count ih => rw [grouped, eval, ih]

theorem ofText_grouped {text : List Char} (read : Token.ofText text = .ok expression.tokens)
    (count : Nat) :
    Token.ofText (List.replicate count '(' ++ text ++ List.replicate count ')') =
      .ok (expression.grouped count).tokens := by
  induction count with
  | zero => simpa [grouped] using read
  | succ count ih =>
      have outermost : List.replicate (count + 1) '(' ++ text ++ List.replicate (count + 1) ')' =
          '(' :: (List.replicate count '(' ++ text ++ List.replicate count ')' ++ [')']) := by
        rw [List.replicate_succ, List.replicate_succ']
        simp
      rw [outermost, Token.ofText_group ih]
      rfl

/-- Parentheses around the text of an expression leave its value as it is, as long as the reader
goes that deep. -/
theorem valueOf_grouped {text : List Char} (read : Token.ofText text = .ok expression.tokens)
    (proper : expression.Proper) {value : Value} (evaluated : expression.eval = .ok value)
    (finite : value.IsFinite) {count : Nat} (shallow : expression.nesting + count ≤ groupLimit) :
    valueOf (List.replicate count '(' ++ text ++ List.replicate count ')') = .ok value := by
  have whole := ofTokens_tokens (proper_grouped proper count)
    (by rwa [nesting_grouped] : (expression.grouped count).nesting ≤ groupLimit)
  apply valueOf_eq_ok.mpr
  refine ⟨_, ofText_grouped read count, ?_, finite⟩
  rw [whole, eval_grouped, evaluated]

end Expression

/-- Writing the literal of a text and reading a literal undo each other. What is read is the same
from the opening quote on, between the quotes at both ends, and as a token. -/
theorem literals_read_alike :
    (∀ content, unquote? (quote content) = some content) ∧
    (∀ text content, unquote? text = some content → text = quote content) ∧
    (∀ text, trim text = text → ∀ content,
      unquote? text = some content ↔ Token.ofText text = .ok [.text content]) ∧
    ∀ text content, unquote? text = some content ↔
      ∃ inner, text = '"' :: (inner ++ ['"']) ∧ undoubled? inner = some content := by
  refine ⟨unquote?_quote, fun text content => unquote?_eq_some_iff.mp, ?_,
    fun text content => unquote?_eq_some_iff_undoubled?⟩
  intro text trimmed content
  rw [unquote?_eq_some_iff, Token.ofText_eq_text_iff, trimmed]

/-- Of four quotes two are the ends and two are a quote, and of three there is none. -/
theorem literals_read_alike_of_quotes :
    trim ['"', '"', '"', '"'] = ['"', '"', '"', '"'] ∧
      Token.ofText ['"', '"', '"', '"'] = .ok [.text ['"']] ∧
      quote ['"'] = ['"', '"', '"', '"'] ∧ undoubled? ['"'] = none := by
  obtain ⟨_, written, token, _⟩ := literals_read_alike
  have trimmed : trim ['"', '"', '"', '"'] = ['"', '"', '"', '"'] := by decide
  have read : unquote? ['"', '"', '"', '"'] = some ['"'] := rfl
  exact ⟨trimmed, (token _ trimmed _).mp read, (written _ _ read).symm, rfl⟩

end Worksheet
