import Mathlib
import Worksheet.Formula.Calculator
import Worksheet.Proofs.Expression.Clash
import Worksheet.Proofs.Script.Literal

/-!
# Jammed texts

A text is jammed when two operands meet in it outside literals, when a word stands there, or when
more points than one stand in one number. Whatever is put around a jammed text, no expression can
be read from it, and as an argument or as what is left of a formula it has no value.
-/

set_option autoImplicit false

namespace Worksheet

theorem isDigit_of_isNumberChar {c : Char} (numeric : Token.isNumberChar c = true)
    (notPoint : c ≠ '.') : c.isDigit = true := by
  simpa [Token.isNumberChar, notPoint] using numeric

theorem digits_or_point {text : List Char} (numeric : ∀ c ∈ text, Token.isNumberChar c = true) :
    (∀ c ∈ text, c.isDigit = true) ∨
      ∃ whole rest, text = whole ++ '.' :: rest ∧ ∀ c ∈ whole, c.isDigit = true := by
  induction text with
  | nil => exact .inl (by simp)
  | cons c more ih =>
      by_cases point : c = '.'
      · exact .inr ⟨[], more, by rw [point]; rfl, by simp⟩
      · have digit := isDigit_of_isNumberChar (numeric c List.mem_cons_self) point
        rcases ih fun d member => numeric d (List.mem_cons_of_mem _ member) with
          digits | ⟨whole, rest, rfl, digits⟩
        · exact .inl (List.forall_mem_cons.mpr ⟨digit, digits⟩)
        · exact .inr ⟨c :: whole, rest, rfl, List.forall_mem_cons.mpr ⟨digit, digits⟩⟩

theorem magnitude?_of_one_point {text : List Char}
    (numeric : ∀ c ∈ text, Token.isNumberChar c = true) (digit : ∃ c ∈ text, c.isDigit = true)
    (few : text.count '.' ≤ 1) : ∃ magnitude, Numeral.magnitude? text = some magnitude := by
  obtain ⟨d, member, isDigit⟩ := digit
  rcases digits_or_point numeric with digits | ⟨whole, rest, rfl, digits⟩
  · exact ⟨_, magnitude?_of_digits (List.ne_nil_of_mem member) (by simpa using digits)⟩
  · have noPoint : '.' ∉ rest := by
      rw [List.count_append, List.count_cons_self] at few
      exact List.count_eq_zero.mp (by omega)
    have fraction : ∀ c ∈ rest, c.isDigit = true := by
      intro c inside
      refine isDigit_of_isNumberChar (numeric c (by simp [inside])) ?_
      rintro rfl
      exact noPoint inside
    have nonempty : whole ++ rest ≠ [] := by
      intro empty
      obtain ⟨rfl, rfl⟩ := List.append_eq_nil_iff.mp empty
      obtain rfl : d = '.' := by simpa using member
      revert isDigit
      decide
    exact ⟨_, magnitude?_of_point nonempty (by simpa using digits) (by simpa using fraction)⟩

theorem magnitude?_of_two_points {text : List Char}
    (numeric : ∀ c ∈ text, Token.isNumberChar c = true) (many : 2 ≤ text.count '.') :
    Numeral.magnitude? text = none := by
  have noPoint {digits : List Char} (all : ∀ c ∈ digits, c.isDigit = true) : digits.count '.' = 0 := by
    refine List.count_eq_zero.mpr fun member => ?_
    have point := all '.' member
    revert point
    decide
  rcases digits_or_point numeric with digits | ⟨whole, rest, rfl, digits⟩
  · rw [noPoint digits] at many
    omega
  have behind : ∀ c ∈ rest, Token.isNumberChar c = true :=
    fun c member => numeric c (List.mem_append_right _ (List.mem_cons_of_mem _ member))
  rcases digits_or_point behind with fraction | ⟨fraction, more, rfl, fractionDigits⟩
  · rw [List.count_append, List.count_cons_self, noPoint digits, noPoint fraction] at many
    omega
  · have stops (digits : List Char) (all : ∀ c ∈ digits, c.isDigit = true) (rest : List Char) :
        (digits ++ '.' :: rest).takeWhile Char.isDigit = digits ∧
          (digits ++ '.' :: rest).dropWhile Char.isDigit = '.' :: rest := by
      rw [List.takeWhile_append_of_pos all, List.dropWhile_append_of_pos all]
      simp
    obtain ⟨taken, dropped⟩ := stops whole digits (fraction ++ '.' :: more)
    obtain ⟨fractionTaken, fractionDropped⟩ := stops fraction fractionDigits more
    have noExponent : Numeral.exponent? ('.' :: more) = none := rfl
    simp only [Numeral.magnitude?, taken, dropped, Numeral.takeFraction, fractionTaken,
      fractionDropped, noExponent]
    cases Numeral.natural? (whole ++ fraction) <;> rfl

/-! ## Jammed texts -/

open Token

/-- The text holds, outside literals, the start of a word, the end of an operand directly in front
of the start of another, or a number with two points. -/
inductive IsJammed : List Char → Prop
  | word {before : List Char} {c : Char} {after : List Char}
      (outside : endsQuoted false before = false) (name : isNameChar c = true)
      (letter : c.isDigit = false) : IsJammed (before ++ c :: after)
  | operands {before : List Char} {c d : Char} {after : List Char}
      (outside : endsQuoted false (before ++ [c]) = false) (ends : endsOperandChar c = true)
      (starts : startsOperandChar d = true)
      (notNumber : ¬ (isNumberChar c = true ∧ isNumberChar d = true))
      (notLiteral : ¬ (c = '"' ∧ d = '"')) : IsJammed (before ++ c :: d :: after)
  | points {before digits after : List Char} (outside : endsQuoted false before = false)
      (numeric : ∀ c ∈ digits, isNumberChar c = true) (many : 2 ≤ digits.count '.') :
      IsJammed (before ++ digits ++ after)

theorem IsJammed.within {text : List Char} (jammed : IsJammed text) {front : List Char}
    (outside : endsQuoted false front = false) (back : List Char) :
    IsJammed (front ++ text ++ back) := by
  have behind (before : List Char) (closed : endsQuoted false before = false) :
      endsQuoted false (front ++ before) = false := by rw [endsQuoted_append, outside, closed]
  cases jammed with
  | @word before c after closed name letter =>
      have whole : IsJammed (front ++ before ++ c :: (after ++ back)) :=
        .word (behind before closed) name letter
      simpa using whole
  | @operands before c d after closed ends starts notNumber notLiteral =>
      have closed' : endsQuoted false (front ++ before ++ [c]) = false := by
        rw [List.append_assoc]
        exact behind _ closed
      have whole : IsJammed (front ++ before ++ c :: d :: (after ++ back)) :=
        .operands closed' ends starts notNumber notLiteral
      simpa using whole
  | @points before digits after closed numeric many =>
      have whole : IsJammed (front ++ before ++ digits ++ (after ++ back)) :=
        .points (behind before closed) numeric many
      simpa using whole

theorem first?_of_letter {c : Char} (name : isNameChar c = true) (letter : c.isDigit = false)
    (text : List Char) : first? (c :: text) = .error .unexpectedCharacter := by
  have notNumeric : isNumberChar c = false := by
    rw [isNumberChar, letter, Bool.false_or, beq_eq_false_iff_ne]
    rintro rfl
    revert name
    decide
  have notQuote : c ≠ '"' := (isNameChar_ne name).1
  have noSymbol : symbol? (c :: text) = none := by
    have none : isSymbolChar c = false := by
      cases symbolic : isSymbolChar c with
      | false => rfl
      | true =>
          have noName : ∀ c ∈ "+-*/()=<>".toList, isNameChar c = false := by
            simp [isNameChar]
          have member : c ∈ "+-*/()=<>".toList := by simpa [isSymbolChar] using symbolic
          rw [noName c member] at name
          cases name
    simpa [none] using isSome_symbol? (c :: text)
  rw [first?_of_ne_quote notQuote, List.takeWhile_cons_of_neg (by simp [notNumeric])]
  simp only [noSymbol]
  rfl

theorem first?_of_two_points {digits after : List Char}
    (numeric : ∀ c ∈ digits, isNumberChar c = true) (many : 2 ≤ digits.count '.') :
    first? (digits ++ after) = .error .malformedNumber := by
  have none : Numeral.magnitude? (digits ++ after.takeWhile isNumberChar) = Option.none := by
    refine magnitude?_of_two_points (fun c member => ?_) ?_
    · rcases List.mem_append.mp member with member | member
      · exact numeric c member
      · exact List.mem_takeWhile_imp member
    · rw [List.count_append]
      omega
  have taken : (digits ++ after).takeWhile isNumberChar = digits ++ after.takeWhile isNumberChar :=
    List.takeWhile_append_of_pos numeric
  obtain ⟨first, more, rfl⟩ := List.exists_cons_of_ne_nil (l := digits) (by
    rintro rfl
    simp at many)
  have notQuote : first ≠ '"' := (isNumberChar_ne (numeric first List.mem_cons_self)).1
  rw [List.cons_append] at taken none ⊢
  rw [first?_of_ne_quote notQuote, taken]
  simp only [List.cons_append, none]

theorem exists_numeric_end (text : List Char) :
    ∃ front run, text = front ++ run ∧ (∀ c ∈ run, isNumberChar c = true) ∧
      ∀ c ∈ front.getLast?, isNumberChar c = false := by
  refine ⟨(text.reverse.dropWhile isNumberChar).reverse,
    (text.reverse.takeWhile isNumberChar).reverse, ?_, fun c member => ?_, fun c member => ?_⟩
  · rw [← List.reverse_append, List.takeWhile_append_dropWhile, List.reverse_reverse]
  · exact List.mem_takeWhile_imp (List.mem_reverse.mp member)
  · have stops := List.head?_dropWhile_not isNumberChar text.reverse
    rw [List.getLast?_reverse] at member
    rw [Option.mem_def.mp member] at stops
    exact stops

theorem ofText_of_word {before : List Char} (outside : endsQuoted false before = false) {c : Char}
    (name : isNameChar c = true) (letter : c.isDigit = false) (after : List Char)
    {tokens : List Token} : ofText (before ++ c :: after) ≠ .ok tokens := by
  intro read
  have notNumeric : ¬ isNumberChar c = true := by
    intro numeric
    rw [isDigit_of_isNumberChar numeric (by rintro rfl; revert name; decide)] at letter
    cases letter
  have plain : c ≠ '"' ∧ c ≠ '=' ∧ c ≠ '>' := by
    refine ⟨?_, ?_, ?_⟩ <;> (rintro rfl; revert name; decide)
  obtain ⟨_, _, _, right, _⟩ := exists_of_ofText_append outside
    (Apart.of_head plain (fun numeric => absurd numeric notNumeric) after) read
  rw [ofText_of_error (isBlank_of_isNameChar name) (first?_of_letter name letter after)] at right
  cases right

/-- A text with a number of two points outside literals has no tokens. -/
theorem ofText_of_two_points {before digits : List Char} (outside : endsQuoted false before = false)
    (numeric : ∀ c ∈ digits, isNumberChar c = true) (many : 2 ≤ digits.count '.')
    (after : List Char) {tokens : List Token} : ofText (before ++ digits ++ after) ≠ .ok tokens := by
  intro read
  -- The number may have begun in the text in front.
  obtain ⟨front, run, rfl, runNumeric, ends⟩ := exists_numeric_end before
  have closed : endsQuoted false front = false := by
    rw [endsQuoted_append, endsQuoted_plain _ fun c member => isNumberChar_ne (runNumeric c member)]
      at outside
    exact outside
  have allNumeric : ∀ c ∈ run ++ digits, isNumberChar c = true :=
    List.forall_mem_append.mpr ⟨runNumeric, numeric⟩
  have allMany : 2 ≤ (run ++ digits).count '.' := by
    rw [List.count_append]
    omega
  have split : front ++ run ++ digits ++ after = front ++ (run ++ digits ++ after) := by
    simp only [List.append_assoc]
  rw [split] at read
  have failed : first? (run ++ digits ++ after) = .error .malformedNumber :=
    first?_of_two_points allNumeric allMany
  cases whole : run ++ digits with
  | nil => simp [whole] at allMany
  | cons first more =>
      rw [whole, List.cons_append] at failed read
      have firstNumeric := allNumeric first (by simp [whole])
      have plain : first ≠ '"' ∧ first ≠ '=' ∧ first ≠ '>' := by
        refine ⟨?_, ?_, ?_⟩ <;> (rintro rfl; revert firstNumeric; decide)
      obtain ⟨_, _, _, right, _⟩ := exists_of_ofText_append closed
        (Apart.of_head plain (fun _ => ends) (more ++ after)) read
      rw [ofText_of_error (isBlank_of_isNumberChar firstNumeric) failed] at right
      cases right

theorem clash_of_isJammed {text : List Char} (jammed : IsJammed text) {tokens : List Token}
    (read : ofText text = .ok tokens) : Clash tokens := by
  cases jammed with
  | word outside name letter => exact absurd read (ofText_of_word outside name letter _)
  | points outside numeric many => exact absurd read (ofText_of_two_points outside numeric many _)
  | @operands before c d after outside ends starts notNumber notLiteral =>
      have apart : Apart (before ++ [c]) (d :: after) := by
        intro last member next head
        obtain rfl : c = last := by simpa using member
        obtain rfl := Option.some.inj head
        refine ⟨notNumber, notLiteral, fun both => ?_⟩
        rcases both.1 with rfl | rfl <;> (revert ends; decide)
      have split : before ++ c :: d :: after = (before ++ [c]) ++ d :: after := by simp
      rw [split] at read
      obtain ⟨tokensBefore, tokensAfter, left, right, rfl⟩ :=
        exists_of_ofText_append outside apart read
      obtain ⟨first, last, firstEnds⟩ := (lexed_of_ofText left).endsOperand (by simp) ends
      obtain ⟨second, head, secondStarts⟩ := (lexed_of_ofText right).startsOperand starts
      exact clash_of_ends last firstEnds head secondStarts

theorem Token.Lexed.endsQuoted {text : List Char} {tokens : List Token} (lexed : Lexed text tokens) :
    endsQuoted false text = false := by
  induction lexed with
  | nil => rfl
  | @blank c rest _ blank _ ih =>
      have notQuote : c ≠ '"' := by
        rintro rfl
        revert blank
        decide
      simpa [Worksheet.endsQuoted, notQuote] using ih
  | token found _ ih => rw [endsQuoted_of_first? found, ih]

theorem ofText_blanks {blanks : List Char} (blank : ∀ c ∈ blanks, isBlank c = true)
    (rest : List Char) : ofText (blanks ++ rest) = ofText rest := by
  induction blanks with
  | nil => rfl
  | cons c more ih =>
      rw [List.cons_append, ofText_blank (blank c List.mem_cons_self)]
      exact ih fun d member => blank d (List.mem_cons_of_mem _ member)

theorem apart_of_blanks (text : List Char) {blanks : List Char}
    (blank : ∀ c ∈ blanks, isBlank c = true) : Apart text blanks := by
  intro last _ c head
  have isBlank := blank c (List.mem_of_mem_head? head)
  refine ⟨fun both => ?_, fun both => ?_, fun both => ?_⟩
  · rw [isBlank_of_isNumberChar both.2] at isBlank
    cases isBlank
  · rw [both.2] at isBlank
    revert isBlank
    decide
  · rcases both.2 with rfl | rfl <;> (revert isBlank; decide)

theorem ofText_of_trim {text : List Char} {tokens : List Token}
    (read : ofText (trim text) = .ok tokens) : ofText text = .ok tokens := by
  obtain ⟨front, back, same, frontBlank, backBlank⟩ := exists_blanks_of_trim text
  have noTokens : ofText back = .ok [] := by
    have blanks := ofText_blanks backBlank []
    rwa [List.append_nil, ofText_nil] at blanks
  rw [same, ofText_blanks frontBlank,
    ofText_append (lexed_of_ofText read).endsQuoted (apart_of_blanks _ backBlank), read, noTokens]
  simp [Except.bind, Except.map]

namespace IsJammed

variable {text : List Char} (jammed : IsJammed text)
include jammed

theorem clash_of_trim {tokens : List Token} (read : ofText (trim text) = .ok tokens) :
    Clash tokens :=
  clash_of_isJammed jammed (ofText_of_trim read)

theorem valueOf_trim_fails : ∃ error, Expression.valueOf (trim text) = .error error := by
  cases read : ofText (trim text) with
  | error fault => exact ⟨_, by rw [Expression.valueOf, read]⟩
  | ok tokens =>
      have clash := jammed.clash_of_trim read
      cases tokens with
      | nil => exact clash.elim
      | cons token rest =>
          obtain ⟨error, failed⟩ := (Expression.fails_of_clash clash).1 []
          refine ⟨error, ?_⟩
          rw [Expression.valueOf, read]
          simp only [Expression.ofTokens, failed, Outcome.error_bind]

theorem isMissing_trim : isMissing (trim text) = false := by
  have apart {missing : List Char} {tokens : List Token} (read : ofText missing = .ok tokens)
      (clean : ¬ Clash tokens) : trim text ≠ missing := by
    intro same
    exact clean (jammed.clash_of_trim (same ▸ read))
  have empty : trim text ≠ [] := apart ofText_nil id
  have parentheses : ofText emptyRangeLiteral = .ok [.opening, .closing] := by
    change ofText ['(', ')'] = _
    rw [ofText_symbol (by decide) (by decide) (by decide) rfl, ofText_closing]
    rfl
  have noNumbers : trim text ≠ emptyRangeLiteral :=
    apart parentheses (by simp [Clash, startsOperand])
  simp [isMissing, empty, noNumbers]

theorem result_fails : ∃ error, Calculator.result text = .error error := by
  obtain ⟨error, failed⟩ := jammed.valueOf_trim_fails
  unfold Calculator.result
  split
  · rename_i content literal
    exfalso
    have single : ofText (trim text) = .ok [.text content] := by
      unfold unquote? at literal
      split at literal
      · rename_i rest opened
        split at literal
        · rename_i spelled found
          obtain rfl : spelled = content := Option.some.inj literal
          have first : first? ('"' :: rest) = .ok (.text spelled, []) := by simp [first?, found]
          rw [opened, ofText_of_first? (by decide) first, ofText_nil]
          rfl
        · cases literal
      · cases literal
    exact jammed.clash_of_trim single
  · rw [Expression.arithmeticOf]
    split
    · exact ⟨error, by rw [failed]; rfl⟩
    · exact ⟨_, rfl⟩

end IsJammed

/-! ## Literals side by side -/

theorem quote_append_quote (first second : List Char) :
    quote first ++ quote second = quote (first ++ '"' :: second) := by
  have doubled (rest : List Char) :
      doubleQuotes (first ++ '"' :: rest) =
        doubleQuotes first ++ '"' :: '"' :: doubleQuotes rest := by
    induction first with
    | nil => simp [doubleQuotes]
    | cons c more ih =>
        by_cases isQuote : c = '"' <;> simp [doubleQuotes, isQuote, ih]
  simp [quote, doubled]

theorem IsLiteral.last_cases {literal : List Char} (isLiteral : IsLiteral literal) :
    ∃ c, literal.getLast? = some c ∧
      (isNumberChar c = true ∧ (∀ d ∈ literal, isNumberChar d = true) ∨ c = ')' ∨
        c = '"' ∧ ∃ content, literal = quote content) := by
  cases isLiteral with
  | number numeric digit =>
      obtain ⟨d, member, _⟩ := digit
      have nonempty := List.ne_nil_of_mem member
      exact ⟨_, List.getLast?_eq_some_getLast nonempty,
        .inl ⟨numeric _ (List.getLast_mem nonempty), numeric⟩⟩
  | @negative digits _ =>
      exact ⟨')', List.getLast?_eq_some_iff.mpr ⟨'(' :: '-' :: digits, rfl⟩, by simp⟩
  | text content =>
      exact ⟨'"', List.getLast?_eq_some_iff.mpr ⟨'"' :: doubleQuotes content, rfl⟩, by simp⟩

theorem IsLiteral.head_cases {literal : List Char} (isLiteral : IsLiteral literal) :
    ∃ d, literal.head? = some d ∧
      (isNumberChar d = true ∧ (∀ c ∈ literal, isNumberChar c = true) ∧
          (∃ c ∈ literal, c.isDigit = true) ∨ d = '(' ∨
        d = '"' ∧ ∃ content, literal = quote content) := by
  cases isLiteral with
  | number numeric digit =>
      have nonempty : literal ≠ [] := by
        rintro rfl
        simp at digit
      obtain ⟨first, rest, rfl⟩ := List.exists_cons_of_ne_nil nonempty
      exact ⟨first, rfl, .inl ⟨numeric first List.mem_cons_self, numeric, digit⟩⟩
  | negative _ => exact ⟨'(', rfl, by simp⟩
  | text content => exact ⟨'"', rfl, by simp⟩

/-- Two literals side by side are jammed, unless they spell one token together. -/
theorem isJammed_of_literals {left right : List Char} (first : IsLiteral left)
    (second : IsLiteral right) (apart : ∀ token, ofText (left ++ right) ≠ .ok [token]) :
    IsJammed (left ++ right) := by
  obtain ⟨c, isLast, leftCases⟩ := first.last_cases
  obtain ⟨d, isFirst, rightCases⟩ := second.head_cases
  have meet (ends : endsOperandChar c = true) (starts : startsOperandChar d = true)
      (notNumber : ¬ (isNumberChar c = true ∧ isNumberChar d = true))
      (notLiteral : ¬ (c = '"' ∧ d = '"')) : IsJammed (left ++ right) := by
    have outside := first.closed
    obtain ⟨before, rfl⟩ := List.getLast?_eq_some_iff.mp isLast
    obtain ⟨after, rfl⟩ := List.head?_eq_some_iff.mp isFirst
    rw [List.append_assoc]
    exact .operands outside ends starts notNumber notLiteral
  rcases leftCases with ⟨numberLast, numericLeft⟩ | rfl | ⟨rfl, content, rfl⟩
  · have ends : endsOperandChar c = true := by simp [endsOperandChar, numberLast]
    have notQuote : c ≠ '"' := (isNumberChar_ne numberLast).1
    rcases rightCases with ⟨_, numericRight, digit⟩ | rfl | ⟨rfl, _⟩
    · -- with one point at most the two would be one number
      have numeric : ∀ e ∈ left ++ right, isNumberChar e = true :=
        List.forall_mem_append.mpr ⟨numericLeft, numericRight⟩
      have many : 2 ≤ (left ++ right).count '.' := by
        by_contra few
        obtain ⟨e, member, isDigit⟩ := digit
        obtain ⟨magnitude, read⟩ := magnitude?_of_one_point numeric
          ⟨e, List.mem_append_right _ member, isDigit⟩ (by omega)
        have ending : EndsNumber [] := by simp [EndsNumber]
        have token := ofText_number numeric read ending
        rw [List.append_nil, ofText_nil] at token
        exact apart _ token
      have whole : IsJammed ([] ++ (left ++ right) ++ []) := .points rfl numeric many
      simpa using whole
    · exact meet ends rfl (fun both => absurd both.2 (by decide)) fun both => notQuote both.1
    · exact meet ends rfl (fun both => absurd both.2 (by decide)) fun both => notQuote both.1
  · rcases rightCases with ⟨numberFirst, _⟩ | rfl | ⟨rfl, _⟩
    · exact meet rfl (by simp [startsOperandChar, numberFirst])
        (fun both => absurd both.1 (by decide)) fun both => absurd both.1 (by decide)
    · exact meet rfl rfl (by decide) (by decide)
    · exact meet rfl rfl (by decide) (by decide)
  · rcases rightCases with ⟨numberFirst, _⟩ | rfl | ⟨rfl, other, rfl⟩
    · exact meet rfl (by simp [startsOperandChar, numberFirst])
        (fun both => absurd both.1 (by decide)) fun both => (isNumberChar_ne numberFirst).1 both.2
    · exact meet rfl rfl (by decide) (by decide)
    · exfalso
      rw [quote_append_quote] at apart
      exact apart _ (ofText_quote _)

end Worksheet
