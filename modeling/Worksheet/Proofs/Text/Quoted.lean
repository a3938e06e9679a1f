import Mathlib
import Worksheet.Proofs.Text.Blank
import Worksheet.Text.Quoted

/-!
# Literals of texts

A literal is read in two ways: from its opening quote on, up to the quote that closes it, or as
what stands between the quotes at both ends of the text. Each of them accepts exactly what writing
a text produces, so a text has one literal, and a literal spells one text.
-/

set_option autoImplicit false

namespace Worksheet

/-- The text whose quotes were written twice. There is none if a quote stands alone. -/
def undoubled? : List Char → Option (List Char)
  | [] => some []
  | '"' :: '"' :: rest => (undoubled? rest).map ('"' :: ·)
  | c :: rest => if c = '"' then none else (undoubled? rest).map (c :: ·)

theorem takeQuoted_doubleQuotes (content : List Char) {rest : List Char}
    (ends : rest.head? ≠ some '"') :
    takeQuoted (doubleQuotes content ++ '"' :: rest) = some (content, rest) := by
  induction content with
  | nil =>
      cases rest with
      | nil => rfl
      | cons c rest =>
          have other : c ≠ '"' := by simpa using ends
          simp [doubleQuotes, takeQuoted, other]
  | cons c content ih =>
      by_cases isQuote : c = '"'
      · simp [doubleQuotes, isQuote, takeQuoted, ih]
      · simp [doubleQuotes, isQuote, takeQuoted, ih]

theorem eq_of_takeQuoted {text content rest : List Char}
    (read : takeQuoted text = some (content, rest)) :
    text = doubleQuotes content ++ '"' :: rest := by
  fun_induction takeQuoted text generalizing content rest with
  | case1 => cases read
  | case2 behind ih =>
      obtain ⟨⟨inner, left⟩, found, same⟩ := Option.map_eq_some_iff.mp read
      obtain ⟨rfl, rfl⟩ := Prod.mk.inj same
      simp [doubleQuotes, ih found]
  | case3 behind _ =>
      obtain ⟨rfl, rfl⟩ := Prod.mk.inj (Option.some.inj read)
      rfl
  | case4 c behind notDouble notQuote ih =>
      obtain ⟨⟨inner, left⟩, found, same⟩ := Option.map_eq_some_iff.mp read
      obtain ⟨rfl, rfl⟩ := Prod.mk.inj same
      have other : c ≠ '"' := by simpa using notQuote
      simp [doubleQuotes, other, ih found]

theorem takeQuoted_eq_some_nil_iff {text content : List Char} :
    takeQuoted text = some (content, []) ↔ text = doubleQuotes content ++ ['"'] := by
  constructor
  · exact eq_of_takeQuoted
  · intro same
    rw [same]
    exact takeQuoted_doubleQuotes content (by simp)

theorem unquote?_eq_some_iff {text content : List Char} :
    unquote? text = some content ↔ text = quote content := by
  cases text with
  | nil => simp [unquote?, quote]
  | cons c rest =>
      by_cases isQuote : c = '"'
      · subst isQuote
        have alone : unquote? ('"' :: rest) = some content ↔
            takeQuoted rest = some (content, []) := by
          cases read : takeQuoted rest with
          | none => simp [unquote?, read]
          | some result =>
              obtain ⟨inner, after⟩ := result
              cases after <;> simp [unquote?, read]
        rw [alone, takeQuoted_eq_some_nil_iff, quote, List.cons_inj_right]
      · simp [unquote?, quote, isQuote]

theorem unquote?_quote (content : List Char) : unquote? (quote content) = some content :=
  unquote?_eq_some_iff.mpr rfl

theorem undoubled?_eq_some_iff {text content : List Char} :
    undoubled? text = some content ↔ text = doubleQuotes content := by
  constructor
  · intro read
    fun_induction undoubled? text generalizing content with
    | case1 =>
        obtain rfl := Option.some.inj read
        rfl
    | case2 rest ih =>
        obtain ⟨inner, found, rfl⟩ := Option.map_eq_some_iff.mp read
        simp [doubleQuotes, ih found]
    | case3 => cases read
    | case4 c rest _ other ih =>
        obtain ⟨inner, found, rfl⟩ := Option.map_eq_some_iff.mp read
        simp [doubleQuotes, other, ih found]
  · intro same
    rw [same]
    clear same
    induction content with
    | nil => rfl
    | cons c content ih =>
        by_cases isQuote : c = '"'
        · simp [doubleQuotes, isQuote, undoubled?, ih]
        · simp [doubleQuotes, isQuote, undoubled?, ih]

theorem unquote?_eq_some_iff_undoubled? {text content : List Char} :
    unquote? text = some content ↔
      ∃ inner, text = '"' :: (inner ++ ['"']) ∧ undoubled? inner = some content := by
  rw [unquote?_eq_some_iff, quote]
  constructor
  · intro same
    exact ⟨doubleQuotes content, same, undoubled?_eq_some_iff.mpr rfl⟩
  · intro ⟨inner, same, read⟩
    rw [same, undoubled?_eq_some_iff.mp read]

theorem trim_quote (content : List Char) : trim (quote content) = quote content := by
  have visible : isBlank '"' = false := by decide
  have last : (quote content).getLast? = some '"' := by
    rw [quote, ← List.cons_append, List.getLast?_concat]
  apply trim_of_ends
  · intro c member
    obtain rfl := Option.some.inj member
    exact visible
  · intro c member
    rw [last] at member
    obtain rfl := Option.some.inj member
    exact visible

end Worksheet
