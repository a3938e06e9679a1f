import Mathlib
import Worksheet.Expression.Evaluation
import Worksheet.Proofs.Text.Quoted

/-!
# Tokens at the start of a text

A token at the start of a text is the first of its tokens. It is a quoted literal, a number or a
symbol, and whatever is said of tokens is proved of these three. A number ends where its run of
digits and points does, so it has to be followed by something else.
-/

set_option autoImplicit false

namespace Worksheet.Token

theorem first?_of_ne_quote {c : Char} (notQuote : c ≠ '"') (rest : List Char) :
    first? (c :: rest) =
      match (c :: rest).takeWhile isNumberChar with
      | [] => (symbol? (c :: rest)).elim (.error .unexpectedCharacter) .ok
      | digits =>
          match Numeral.magnitude? digits with
          | some magnitude =>
              .ok (number (magnitude.toFloat false), (c :: rest).dropWhile isNumberChar)
          | none => .error .malformedNumber := by
  unfold first?
  split
  · rename_i same
    exact absurd (List.cons.inj same).1 notQuote
  · rfl

def symbols : List (List Char × Token) :=
  [(['+'], operator .add), (['-'], operator .subtract), (['*'], operator .multiply),
    (['/'], operator .divide), (['('], opening), ([')'], closing),
    (['='], operator (.compare .equal)), (['<', '>'], operator (.compare .notEqual)),
    (['<', '='], operator (.compare .atMost)), (['<'], operator (.compare .less)),
    (['>', '='], operator (.compare .atLeast)), (['>'], operator (.compare .greater))]

theorem exists_of_symbol? {text rest : List Char} {token : Token}
    (found : symbol? text = some (token, rest)) :
    ∃ word, (word, token) ∈ symbols ∧ text = word ++ rest := by
  unfold symbol? at found
  split at found <;> cases found <;>
    first | exact ⟨[_], by simp [symbols], rfl⟩ | exact ⟨[_, _], by simp [symbols], rfl⟩

def isSymbolChar (c : Char) : Bool :=
  "+-*/()=<>".toList.contains c

theorem isSome_symbol? (text : List Char) :
    (symbol? text).isSome = text.head?.any isSymbolChar := by
  cases text with
  | nil => rfl
  | cons c rest =>
      change (symbol? (c :: rest)).isSome = isSymbolChar c
      cases isSymbol : isSymbolChar c with
      | true =>
          have symbols : c ∈ "+-*/()=<>".toList := by simpa [isSymbolChar] using isSymbol
          unfold symbol?
          split <;> first | rfl | (exfalso; simp_all)
      | false =>
          unfold symbol?
          split <;> first | rfl | (rename_i same; cases same; exact absurd isSymbol (by decide))

/-- How a token stands at the start of a text, in front of the rest. -/
inductive Leads (text : List Char) (token : Token) (rest : List Char) : Prop
  | quoted {inner content : List Char} (opened : text = '"' :: inner)
      (read : takeQuoted inner = some (content, rest)) (same : token = .text content)
  | number {digits : List Char} {magnitude : Decimal} (spelled : text = digits ++ rest)
      (numeric : ∀ c ∈ digits, isNumberChar c = true)
      (read : Numeral.magnitude? digits = some magnitude)
      (same : token = .number (magnitude.toFloat false))
  | symbol {word : List Char} (member : (word, token) ∈ symbols) (spelled : text = word ++ rest)

theorem leads_of_first? {text rest : List Char} {token : Token}
    (found : first? text = .ok (token, rest)) : Leads text token rest := by
  unfold first? at found
  split at found
  · split at found
    · rename_i read
      obtain ⟨rfl, rfl⟩ := Prod.mk.inj (Except.ok.inj found)
      exact .quoted rfl read rfl
    · cases found
  · split at found
    · cases symbol : symbol? text with
      | none => simp [symbol] at found
      | some result =>
          simp only [symbol, Option.elim_some, Except.ok.injEq] at found
          subst found
          obtain ⟨word, member, spelled⟩ := exists_of_symbol? symbol
          exact .symbol member spelled
    · split at found
      · rename_i read
        obtain ⟨rfl, rfl⟩ := Prod.mk.inj (Except.ok.inj found)
        exact .number List.takeWhile_append_dropWhile.symm
          (fun c member => List.mem_takeWhile_imp member) read rfl
      · cases found

theorem Leads.head_cases {c : Char} {text rest : List Char} {token : Token}
    (leads : Leads (c :: text) token rest) :
    (c = '"' ∧ ∃ content, token = .text content) ∨
      (isNumberChar c = true ∧ ∃ x, token = .number x) ∨ ∃ more, (c :: more, token) ∈ symbols := by
  cases leads with
  | quoted opened _ same => exact .inl ⟨(List.cons.inj opened).1, _, same⟩
  | @number digits _ spelled numeric read same =>
      cases digits with
      | nil => cases read
      | cons first more =>
          obtain ⟨rfl, -⟩ := List.cons.inj spelled
          exact .inr (.inl ⟨numeric c List.mem_cons_self, _, same⟩)
  | @symbol word member spelled =>
      cases word with
      | nil => simp [symbols] at member
      | cons first more =>
          obtain ⟨rfl, -⟩ := List.cons.inj spelled
          exact .inr (.inr ⟨more, member⟩)

theorem ofText_nil : ofText [] = .ok [] := by
  rw [ofText]

theorem ofText_blank {c : Char} (blank : isBlank c = true) (rest : List Char) :
    ofText (c :: rest) = ofText rest := by
  rw [ofText, if_pos blank]

theorem ofText_of_first? {c : Char} {text rest : List Char} {token : Token}
    (visible : isBlank c = false) (found : first? (c :: text) = .ok (token, rest)) :
    ofText (c :: text) = (ofText rest).map (token :: ·) := by
  rw [ofText, if_neg (by simp [visible])]
  split
  · rename_i fault failed
    rw [found] at failed
    cases failed
  · rename_i token' after read
    rw [found] at read
    cases read
    rfl

theorem ofText_of_error {c : Char} {text : List Char} {fault : Fault}
    (visible : isBlank c = false) (failed : first? (c :: text) = .error fault) :
    ofText (c :: text) = .error fault := by
  rw [ofText, if_neg (by simp [visible])]
  split
  · rename_i other found
    rw [failed] at found
    cases found
    rfl
  · rename_i found
    rw [failed] at found
    cases found

/-- The tokens of a text that can be read: blanks are passed over, and each token is the one at the
start of what is left. -/
inductive Lexed : List Char → List Token → Prop
  | nil : Lexed [] []
  | blank {c : Char} {rest : List Char} {tokens : List Token} (blank : isBlank c = true)
      (later : Lexed rest tokens) : Lexed (c :: rest) tokens
  | token {c : Char} {rest after : List Char} {token : Token} {tokens : List Token}
      (found : first? (c :: rest) = .ok (token, after)) (later : Lexed after tokens) :
      Lexed (c :: rest) (token :: tokens)

theorem lexed_of_ofText {text : List Char} {tokens : List Token} (read : ofText text = .ok tokens) :
    Lexed text tokens := by
  fun_induction ofText text generalizing tokens with
  | case1 =>
      cases read
      exact .nil
  | case2 c rest blank ih => exact .blank blank (ih read)
  | case3 => cases read
  | case4 c rest visible token after found ih =>
      cases remaining : ofText after with
      | error fault =>
          rw [remaining] at read
          cases read
      | ok others =>
          rw [remaining] at read
          cases read
          exact .token found (ih remaining)

theorem isBlank_of_isNumberChar {c : Char} (numeric : isNumberChar c = true) :
    isBlank c = false := by
  have bounds : 46 ≤ c.toNat ∧ c.toNat ≤ 57 := by
    simp only [isNumberChar, Bool.or_eq_true, beq_iff_eq] at numeric
    rcases numeric with digit | rfl
    · simp only [Char.isDigit, Bool.and_eq_true, decide_eq_true_eq, ge_iff_le, UInt32.le_iff_toNat_le]
        at digit
      change 48 ≤ c.toNat ∧ c.toNat ≤ 57 at digit
      omega
    · decide
  simp only [isBlank, Bool.or_eq_false_iff, Bool.and_eq_false_iff, decide_eq_false_iff_not,
    beq_eq_false_iff_ne, ne_eq]
  omega

theorem isBlank_of_first? {c : Char} {text rest : List Char} {token : Token}
    (found : first? (c :: text) = .ok (token, rest)) : isBlank c = false := by
  rcases (leads_of_first? found).head_cases with ⟨rfl, -⟩ | ⟨numeric, -⟩ | ⟨more, member⟩
  · decide
  · exact isBlank_of_isNumberChar numeric
  · have visible : ∀ symbol ∈ symbols, symbol.1.head?.all (!isBlank ·) = true := by decide
    simpa using visible _ member

def EndsNumber (rest : List Char) : Prop :=
  ∀ c ∈ rest.head?, isNumberChar c = false

theorem ofText_number {digits rest : List Char} {decimal : Decimal}
    (numeric : ∀ c ∈ digits, isNumberChar c = true)
    (read : Numeral.magnitude? digits = some decimal) (ends : EndsNumber rest) :
    ofText (digits ++ rest) = (ofText rest).map (.number (decimal.toFloat false) :: ·) := by
  cases digits with
  | nil =>
      have none : Numeral.magnitude? [] = Option.none := rfl
      rw [none] at read
      cases read
  | cons c more =>
      have first := numeric c List.mem_cons_self
      have notQuote : c ≠ '"' := by
        rintro rfl
        revert first
        decide
      have stops : rest.takeWhile isNumberChar = [] := by
        cases rest with
        | nil => rfl
        | cons other rest => exact List.takeWhile_cons_of_neg (by simp [ends other rfl])
      have taken : (c :: more ++ rest).takeWhile isNumberChar = c :: more := by
        rw [List.takeWhile_append_of_pos numeric, stops, List.append_nil]
      have dropped : (c :: more ++ rest).dropWhile isNumberChar = rest := by
        rw [List.dropWhile_append_of_pos numeric]
        cases rest with
        | nil => rfl
        | cons other rest => exact List.dropWhile_cons_of_neg (by simp [ends other rfl])
      rw [List.cons_append]
      refine ofText_of_first? (isBlank_of_isNumberChar first) ?_
      rw [List.cons_append] at taken dropped
      rw [first?_of_ne_quote notQuote, taken, dropped]
      simp only [read]

theorem ofText_symbol {c : Char} {rest : List Char} {token : Token}
    (visible : isBlank c = false) (notQuote : c ≠ '"') (notNumeric : isNumberChar c = false)
    (found : symbol? (c :: rest) = some (token, rest)) :
    ofText (c :: rest) = (ofText rest).map (token :: ·) := by
  refine ofText_of_first? visible ?_
  rw [first?_of_ne_quote notQuote, List.takeWhile_cons_of_neg (by simp [notNumeric])]
  simp only [found]
  rfl

theorem ofText_closing : ofText [')'] = .ok [.closing] := by
  rw [ofText_symbol (by decide) (by decide) (by decide) rfl, ofText_nil]
  rfl

theorem ofText_quote (content : List Char) : ofText (quote content) = .ok [.text content] := by
  have read := takeQuoted_doubleQuotes content (by simp : [].head? ≠ some '"')
  have first : first? (quote content) = .ok (.text content, []) := by simp [quote, first?, read]
  rw [quote, ofText_of_first? (by decide) first, ofText_nil]
  rfl

end Worksheet.Token
