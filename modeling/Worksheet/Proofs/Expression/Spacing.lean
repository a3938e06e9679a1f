import Mathlib
import Worksheet.Proofs.Expression.Grammar
import Worksheet.Proofs.Expression.Jammed

/-!
# Words and the blanks between them

A text that can be read is a list of words, one for each of its tokens, with blanks around them or
none. In the tokens of a parse tree no two neighbours could run together into one: numbers, texts
and comparisons always have something else between them. So blanks make no difference between the
words of a parse tree, and a text has a value exactly when a parse tree of its tokens has one.
-/

set_option autoImplicit false

namespace Worksheet

namespace Token

def IsSpelledBy (token : Token) (word : List Char) : Prop :=
  first? word = .ok (token, [])

/-- The text is the words in their order, with blanks around them or none. -/
inductive Spaced : List (List Char) → List Char → Prop
  | blanks {blanks : List Char} (blank : ∀ c ∈ blanks, isBlank c = true) : Spaced [] blanks
  | word {blanks word : List Char} {words : List (List Char)} {rest : List Char}
      (blank : ∀ c ∈ blanks, isBlank c = true) (spaced : Spaced words rest) :
      Spaced (word :: words) (blanks ++ word ++ rest)

theorem isSpelledBy_text (content : List Char) : (text content).IsSpelledBy (quote content) := by
  have read := takeQuoted_doubleQuotes content (by simp : [].head? ≠ some '"')
  simp [IsSpelledBy, quote, first?, read]

theorem isSpelledBy_number {digits : List Char} {magnitude : Decimal}
    (numeric : ∀ c ∈ digits, isNumberChar c = true)
    (read : Numeral.magnitude? digits = some magnitude) :
    (number (magnitude.toFloat false)).IsSpelledBy digits := by
  cases digits with
  | nil => cases read
  | cons c rest =>
      have notQuote := (isNumberChar_ne (numeric c List.mem_cons_self)).1
      have whole : (c :: rest).takeWhile isNumberChar = c :: rest :=
        List.takeWhile_eq_self_iff.mpr numeric
      have nothing : (c :: rest).dropWhile isNumberChar = [] :=
        List.dropWhile_eq_nil_iff.mpr numeric
      rw [IsSpelledBy, first?_of_ne_quote notQuote, whole, nothing]
      simp only [read]

theorem isSpelledBy_symbol {word : List Char} {token : Token} (member : (word, token) ∈ symbols) :
    token.IsSpelledBy word := by
  have table : ∀ symbol ∈ symbols, symbol.2.IsSpelledBy symbol.1 := by
    simp [symbols, IsSpelledBy, first?, symbol?, isNumberChar]
  exact table _ member

theorem exists_word_of_first? {text rest : List Char} {token : Token}
    (found : first? text = .ok (token, rest)) :
    ∃ word, text = word ++ rest ∧ token.IsSpelledBy word := by
  cases leads_of_first? found with
  | @quoted inner content opened read same =>
      refine ⟨quote content, ?_, same ▸ isSpelledBy_text content⟩
      simp [opened, eq_of_takeQuoted read, quote]
  | number spelled numeric read same => exact ⟨_, spelled, same ▸ isSpelledBy_number numeric read⟩
  | symbol member spelled => exact ⟨_, spelled, isSpelledBy_symbol member⟩

theorem Spaced.nothing : Spaced [] [] :=
  .blanks (by simp)

theorem Spaced.tight {word : List Char} {words : List (List Char)} {rest : List Char}
    (spaced : Spaced words rest) : Spaced (word :: words) (word ++ rest) :=
  @Spaced.word [] word words rest (by simp) spaced

theorem Spaced.blank_cons {c : Char} (blank : isBlank c = true) {words : List (List Char)}
    {text : List Char} (spaced : Spaced words text) : Spaced words (c :: text) := by
  cases spaced with
  | blanks blanks => exact .blanks (List.forall_mem_cons.mpr ⟨blank, blanks⟩)
  | word blanks spaced => exact .word (List.forall_mem_cons.mpr ⟨blank, blanks⟩) spaced

theorem Lexed.exists_words {text : List Char} {tokens : List Token} (lexed : Lexed text tokens) :
    ∃ words, List.Forall₂ IsSpelledBy tokens words ∧ Spaced words text := by
  induction lexed with
  | nil => exact ⟨[], .nil, .nothing⟩
  | blank blank _ ih =>
      obtain ⟨words, spelled, spaced⟩ := ih
      exact ⟨words, spelled, spaced.blank_cons blank⟩
  | token found _ ih =>
      obtain ⟨words, spelled, spaced⟩ := ih
      obtain ⟨word, same, single⟩ := exists_word_of_first? found
      rw [same]
      exact ⟨word :: words, .cons single spelled, spaced.tight⟩

def isComparison : Token → Bool
  | operator (.compare _) => true
  | _ => false

/-- The words of the two tokens could run together. -/
def Joins (first second : Token) : Prop :=
  first.endsOperand = true ∧ second.startsOperand = true ∨
    first.isComparison = true ∧ second.isComparison = true

theorem isComparison_of_last {token : Token} {word : List Char} (spelled : token.IsSpelledBy word)
    {c : Char} (last : word.getLast? = some c) (angle : c = '<' ∨ c = '>') :
    token.isComparison = true := by
  cases leads_of_first? spelled with
  | @quoted inner content opened read _ =>
      rw [opened, takeQuoted_eq_some_nil_iff.mp read, List.getLast?_cons] at last
      obtain rfl : '"' = c := by simpa using last
      exact absurd angle (by decide)
  | number spelled numeric _ _ =>
      rw [spelled, List.append_nil] at last
      have digit := numeric c (List.mem_of_getLast? last)
      rcases angle with rfl | rfl <;> exact absurd digit (by decide)
  | @symbol word member spelled =>
      have table : ∀ symbol ∈ symbols, ∀ c, symbol.1.getLast? = some c → c = '<' ∨ c = '>' →
          symbol.2.isComparison = true := by
        simp [symbols, isComparison]
      rw [spelled, List.append_nil] at last
      exact table _ member c last angle

theorem isComparison_of_head {token : Token} {c : Char} {rest after : List Char}
    (found : first? (c :: rest) = .ok (token, after)) (sign : c = '=' ∨ c = '>') :
    token.isComparison = true := by
  rcases (leads_of_first? found).head_cases with ⟨rfl, -⟩ | ⟨numeric, -⟩ | ⟨more, member⟩
  · exact absurd sign (by decide)
  · rcases sign with rfl | rfl <;> exact absurd numeric (by decide)
  · have table : ∀ symbol ∈ symbols, ∀ c ∈ symbol.1.head?, c = '=' ∨ c = '>' →
        symbol.2.isComparison = true := by
      simp [symbols, isComparison]
    exact table _ member c rfl sign

theorem apart_of_not_joins {first second : Token} {word next : List Char}
    (spelled : first.IsSpelledBy word) (nextSpelled : second.IsSpelledBy next)
    (separate : ¬ first.Joins second) (rest : List Char) : Apart word (next ++ rest) := by
  have nonempty : next ≠ [] := by
    rintro rfl
    cases nextSpelled
  obtain ⟨d, more, rfl⟩ := List.exists_cons_of_ne_nil nonempty
  intro c last head isHead
  obtain rfl : d = head := by simpa using isHead
  have operands : ¬ (endsOperandChar c = true ∧ startsOperandChar d = true) := by
    rintro ⟨ends, starts⟩
    exact separate (.inl ⟨endsOperand_of_first? spelled last ends,
      startsOperand_of_first? nextSpelled starts⟩)
  refine ⟨fun both => ?_, fun both => ?_, fun both => ?_⟩
  · exact operands ⟨by simp [endsOperandChar, both.1], by simp [startsOperandChar, both.2]⟩
  · exact operands ⟨by simp [endsOperandChar, both.1], by simp [startsOperandChar, both.2]⟩
  · exact separate (.inr ⟨isComparison_of_last spelled last both.1,
      isComparison_of_head nextSpelled both.2⟩)

theorem apart_of_spaced {token : Token} {tokens : List Token} {word : List Char}
    {words : List (List Char)}
    (spelled : List.Forall₂ IsSpelledBy (token :: tokens) (word :: words))
    (separate : ∀ next ∈ tokens.head?, ¬ token.Joins next) {rest : List Char}
    (spaced : Spaced words rest) : Apart word rest := by
  cases spaced with
  | blanks blank => exact apart_of_blanks word blank
  | @word blanks next others after blank spaced =>
      cases blanks with
      | cons c more =>
          intro last isLast d isHead
          have onBlank : ∀ d ∈ [c], isBlank d = true :=
            List.forall_mem_singleton.mpr (blank c List.mem_cons_self)
          exact apart_of_blanks word onBlank last isLast d isHead
      | nil =>
          obtain ⟨single, spelled⟩ := List.forall₂_cons.mp spelled
          cases spelled with
          | cons nextSpelled _ =>
              exact apart_of_not_joins single nextSpelled (separate _ rfl) after

theorem ofText_of_isSpelledBy {token : Token} {word : List Char}
    (spelled : token.IsSpelledBy word) : ofText word = .ok [token] := by
  cases word with
  | nil => cases spelled
  | cons c rest =>
      rw [ofText_of_first? (isBlank_of_first? spelled) spelled, ofText_nil]
      rfl

/-- The words of tokens of which no two neighbours join are read as these tokens, whatever blanks
stand between them. -/
theorem ofText_of_spaced {tokens : List Token} {words : List (List Char)}
    (spelled : List.Forall₂ IsSpelledBy tokens words)
    (separate : tokens.IsChain fun first second => ¬ first.Joins second) {text : List Char}
    (spaced : Spaced words text) : ofText text = .ok tokens := by
  induction spaced generalizing tokens with
  | blanks blank =>
      cases spelled
      have read := ofText_blanks blank []
      rwa [List.append_nil, ofText_nil] at read
  | @word blanks word words rest blank spaced ih =>
      cases spelled with
      | @cons token _ tokens _ single others =>
          obtain ⟨first, later⟩ := List.isChain_cons.mp separate
          have apart := apart_of_spaced (.cons single others) first spaced
          have alone := ofText_of_isSpelledBy single
          rw [List.append_assoc, ofText_blanks blank,
            ofText_append (lexed_of_ofText alone).endsQuoted apart, alone, ih others later]
          rfl

end Token

namespace Expression

theorem ends_of_proper {expression : Expression} (proper : expression.Proper) :
    (∃ first, expression.tokens.head? = some first ∧ first.isComparison = false) ∧
      ∃ last, expression.tokens.getLast? = some last ∧ last.endsOperand = true := by
  induction expression with
  | number x => exact ⟨⟨_, rfl, rfl⟩, _, rfl, rfl⟩
  | text content => exact ⟨⟨_, rfl, rfl⟩, _, rfl, rfl⟩
  | sign negative operand ih =>
      obtain ⟨_, last, isLast, ends⟩ := ih proper.2
      refine ⟨⟨_, rfl, by cases negative <;> rfl⟩, last, ?_, ends⟩
      simp [tokens, List.getLast?_cons, isLast]
  | group inner _ => exact ⟨⟨_, rfl, rfl⟩, .closing, by simp [tokens, List.getLast?_cons], rfl⟩
  | binary operator left right ihLeft ihRight =>
      obtain ⟨⟨first, isFirst, starts⟩, _⟩ := ihLeft proper.2.2.1
      obtain ⟨_, last, isLast, ends⟩ := ihRight proper.2.2.2
      refine ⟨⟨first, ?_, starts⟩, last, ?_, ends⟩
      · simp [tokens, isFirst]
      · simp [tokens, List.getLast?_cons, isLast]
  | missing error => exact proper.elim
  | spoiled whole error _ => exact proper.elim

theorem not_joins_of_before {token : Token} (endless : token.endsOperand = false)
    {expression : Expression} (proper : expression.Proper) :
    ∀ first ∈ expression.tokens.head?, ¬ token.Joins first := by
  obtain ⟨⟨first, isFirst, noComparison⟩, _⟩ := ends_of_proper proper
  intro other member
  obtain rfl : first = other := Option.some.inj (isFirst.symm.trans member)
  rintro (⟨ends, _⟩ | ⟨_, compares⟩)
  · exact absurd ends (by simp [endless])
  · exact absurd compares (by simp [noComparison])

theorem not_joins_of_behind {token : Token} (startless : token.startsOperand = false)
    {expression : Expression} (proper : expression.Proper) :
    ∀ last ∈ expression.tokens.getLast?, ¬ last.Joins token := by
  obtain ⟨_, last, isLast, ends⟩ := ends_of_proper proper
  intro other member
  obtain rfl : last = other := Option.some.inj (isLast.symm.trans member)
  rintro (⟨_, starts⟩ | ⟨compares, _⟩)
  · exact absurd starts (by simp [startless])
  · cases last with
    | operator operator => cases ends
    | _ => cases compares

/-- No two neighbours among the tokens of an expression join. -/
theorem separate_of_proper {expression : Expression} (proper : expression.Proper) :
    expression.tokens.IsChain fun first second => ¬ first.Joins second := by
  induction expression with
  | number x => exact List.isChain_singleton _
  | text content => exact List.isChain_singleton _
  | sign negative operand ih =>
      exact List.isChain_cons.mpr ⟨not_joins_of_before rfl proper.2, ih proper.2⟩
  | group inner ih =>
      have innerProper : inner.Proper := proper
      obtain ⟨⟨first, isFirst, _⟩, _⟩ := ends_of_proper innerProper
      have closed : (inner.tokens ++ [Token.closing]).IsChain
          fun first second => ¬ first.Joins second := by
        refine List.isChain_append.mpr ⟨ih innerProper, List.isChain_singleton _, ?_⟩
        intro last isLast second only
        obtain rfl : Token.closing = second := by simpa using only
        exact not_joins_of_behind rfl innerProper last isLast
      refine List.isChain_cons.mpr ⟨fun second isSecond => ?_, closed⟩
      rw [List.head?_append, isFirst, Option.some_or] at isSecond
      exact not_joins_of_before rfl innerProper second (isFirst ▸ isSecond)
  | binary operator left right ihLeft ihRight =>
      obtain ⟨_, _, leftProper, rightProper⟩ := proper
      have behind : (.operator operator :: right.tokens).IsChain
          fun first second => ¬ first.Joins second :=
        List.isChain_cons.mpr ⟨not_joins_of_before rfl rightProper, ihRight rightProper⟩
      refine List.isChain_append.mpr ⟨ihLeft leftProper, behind, fun last isLast second only => ?_⟩
      obtain rfl : .operator operator = second := by simpa using only
      exact not_joins_of_behind rfl leftProper last isLast
  | missing error => exact proper.elim
  | spoiled whole error _ => exact proper.elim

/-! ## Values of texts -/

theorem valueOf_eq_ok {text : List Char} {value : Value} :
    valueOf text = .ok value ↔
      ∃ tokens, Token.ofText text = .ok tokens ∧ (ofTokens tokens).eval = .ok value ∧
        value.IsFinite := by
  unfold valueOf
  split
  · rename_i failed
    simp [failed]
  · rename_i read
    have nothing : (ofTokens []).eval = .error (.invalidExpression .unexpectedEnd) := rfl
    simp [read, nothing]
  · rename_i tokens _ read
    rw [Outcome.bind_eq_ok, read]
    simp only [requireFinite_eq_ok, Except.ok.injEq, exists_eq_left']
    exact ⟨fun ⟨_, evaluated, same, finite⟩ => ⟨same ▸ evaluated, same ▸ finite⟩,
      fun ⟨evaluated, finite⟩ => ⟨value, evaluated, rfl, finite⟩⟩

end Expression

end Worksheet
