import Mathlib
import Worksheet.Proofs.Expression.Lexing
import Worksheet.Proofs.Script.Calls

/-!
# Operands side by side

Two operands with nothing between them are no expression, wherever they stand: the reader comes to
the second one where only an operator, a parenthesis that closes, or the end may follow. The
tokens of two texts are those of the first and then those of the second, as long as no token
reaches from one into the other.
-/

set_option autoImplicit false

namespace Worksheet

namespace Token

def endsOperand : Token → Bool
  | number _ | text _ | closing => true
  | _ => false

def startsOperand : Token → Bool
  | number _ | text _ | opening => true
  | _ => false

/-- Somewhere one operand ends and the next one starts at once. -/
def Clash : List Token → Prop
  | first :: second :: rest =>
      (first.endsOperand = true ∧ second.startsOperand = true) ∨ Clash (second :: rest)
  | _ => False

theorem Clash.prepend {tokens : List Token} (clash : Clash tokens) (before : List Token) :
    Clash (before ++ tokens) := by
  induction before with
  | nil => exact clash
  | cons token more ih =>
      rw [List.cons_append]
      cases joined : more ++ tokens with
      | nil =>
          rw [joined] at ih
          exact ih.elim
      | cons second rest =>
          rw [joined] at ih
          exact .inr ih

theorem clash_of_ends {before after : List Token} {first second : Token}
    (last : before.getLast? = some first) (ends : first.endsOperand = true)
    (head : after.head? = some second) (starts : second.startsOperand = true) :
    Clash (before ++ after) := by
  obtain ⟨earlier, rfl⟩ := List.getLast?_eq_some_iff.mp last
  obtain ⟨later, rfl⟩ := List.head?_eq_some_iff.mp head
  have here : Clash (first :: second :: later) := Or.inl ⟨ends, starts⟩
  rw [List.append_assoc]
  exact here.prepend earlier

end Token

namespace Expression

def Fails (expression : Expression) : Prop :=
  ∃ error, expression.eval = .error error

theorem fails_missing (error : FormulaError) : (missing error).Fails :=
  ⟨error, rfl⟩

theorem fails_spoiled (whole : Expression) (error : FormulaError) :
    (spoiled whole error).Fails := by
  cases value : whole.eval with
  | error first => exact ⟨first, by simp [eval, value]⟩
  | ok result => exact ⟨error, by simp [eval, value]⟩

theorem Fails.fill {operand : Expression} (fails : operand.Fails) (frame : Frame) :
    (frame.fill operand).Fails := by
  obtain ⟨error, failed⟩ := fails
  cases frame with
  | sign negative => exact ⟨error, by simp [Frame.fill, eval, failed]⟩
  | group => exact ⟨error, failed⟩
  | binary left operator =>
      cases value : left.eval with
      | error first => exact ⟨first, by simp [Frame.fill, eval, value]⟩
      | ok result => exact ⟨error, by simp [Frame.fill, eval, value, failed]⟩

theorem Fails.fillAll {operand : Expression} (fails : operand.Fails) (frames : List Frame) :
    (fillAll frames operand).Fails := by
  induction frames generalizing operand with
  | nil => exact fails
  | cons frame frames ih => exact ih (fails.fill frame)

theorem fails_interrupt (frames : List Frame) (operand : Expression) :
    (interrupt frames operand).Fails := by
  unfold interrupt
  split
  · exact fails_spoiled _ _
  · exact (fails_spoiled _ _).fillAll _

theorem fails_of_startsOperand {token : Token} (starts : token.startsOperand = true)
    (frames : List Frame) (operand : Expression) (rest : List Token) :
    (readOperator frames operand (token :: rest)).Fails := by
  cases token with
  | number x => exact fails_interrupt frames operand
  | text content => exact fails_interrupt frames operand
  | opening => exact fails_interrupt frames operand
  | operator operator => cases starts
  | closing => cases starts

/-- One step of the reader: it fails on a token if it fails on the rest, in whichever way it goes
on there. It only asks for an operand behind a token that ends none. -/
theorem fails_of_rest (token : Token) {rest : List Token}
    (onOperand : token.endsOperand = false → ∀ frames, (readOperand frames rest).Fails)
    (onOperator : ∀ frames operand, (readOperator frames operand rest).Fails) :
    (∀ frames, (readOperand frames (token :: rest)).Fails) ∧
      ∀ frames operand, (readOperator frames operand (token :: rest)).Fails := by
  constructor
  · intro frames
    cases token with
    | number x =>
        rw [readOperand]
        exact onOperator frames _
    | text content =>
        rw [readOperand]
        exact onOperator frames _
    | closing => exact (fails_missing _).fillAll frames
    | opening =>
        simp only [readOperand, openedBy?]
        split
        · exact onOperand rfl _
        · exact (fails_missing _).fillAll frames
    | operator operator =>
        rw [readOperand]
        · split
          · split
            · exact onOperand rfl _
            · exact (fails_missing _).fillAll frames
          · exact (fails_missing _).fillAll frames
        · simp
        · simp
  · intro frames operand
    cases token with
    | number x => exact fails_interrupt frames operand
    | text content => exact fails_interrupt frames operand
    | opening => exact fails_interrupt frames operand
    | closing =>
        rw [readOperator]
        split
        · exact fails_spoiled _ _
        · exact onOperator _ _
    | operator operator =>
        rw [readOperator]
        split
        split
        · exact fails_interrupt _ _
        · exact onOperand rfl _

theorem fails_of_clash {tokens : List Token} (clash : Token.Clash tokens) :
    (∀ frames, (readOperand frames tokens).Fails) ∧
      ∀ frames operand, (readOperator frames operand tokens).Fails := by
  induction tokens with
  | nil => exact clash.elim
  | cons first more ih =>
      cases more with
      | nil => exact clash.elim
      | cons second rest =>
          rcases clash with ⟨ends, starts⟩ | later
          · refine fails_of_rest first (fun endless => ?_) fun frames operand => ?_
            · rw [ends] at endless
              cases endless
            · exact fails_of_startsOperand starts frames operand rest
          · obtain ⟨onOperand, onOperator⟩ := ih later
            exact fails_of_rest first (fun _ => onOperand) onOperator

end Expression

/-! ## Texts side by side -/

theorem endsQuoted_of_takeQuoted {text content after : List Char}
    (read : takeQuoted text = some (content, after)) :
    endsQuoted true text = endsQuoted false after := by
  obtain ⟨literal, flat, rfl⟩ := exists_flat_of_takeQuoted read
  rw [endsQuoted_append, endsQuoted_of_flat flat]

/-- A quoted literal ends where it does, whatever follows, unless its last quote is doubled. -/
theorem takeQuoted_append {text second : List Char} (outside : endsQuoted true text = false)
    (apart : ∀ c ∈ text.getLast?, ∀ d ∈ second.head?, ¬ (c = '"' ∧ d = '"')) :
    takeQuoted (text ++ second) =
      (takeQuoted text).map fun (content, after) => (content, after ++ second) := by
  fun_induction takeQuoted text with
  | case1 => cases outside
  | case2 rest ih =>
      have next : endsQuoted true rest = false := by simpa [endsQuoted] using outside
      have last : ∀ c ∈ rest.getLast?, ∀ d ∈ second.head?, ¬ (c = '"' ∧ d = '"') :=
        fun c member => apart c (List.mem_getLast?_cons (List.mem_getLast?_cons member))
      simp only [List.cons_append, takeQuoted, ih next last, Option.map_map]
      rfl
  | case3 rest single =>
      cases rest with
      | nil =>
          cases second with
          | nil => simp [takeQuoted]
          | cons d more =>
              have other : d ≠ '"' := fun same => apart '"' rfl d rfl ⟨rfl, same⟩
              simp [takeQuoted, other]
      | cons d more =>
          have other : d ≠ '"' := by
            rintro rfl
            exact single more rfl
          simp [takeQuoted, other]
  | case4 c rest notDouble notQuote ih =>
      have other : c ≠ '"' := by simpa using notQuote
      have next : endsQuoted true rest = false := by simpa [endsQuoted, other] using outside
      have last : ∀ c ∈ rest.getLast?, ∀ d ∈ second.head?, ¬ (c = '"' ∧ d = '"') :=
        fun c member => apart c (List.mem_getLast?_cons member)
      have first : takeQuoted (c :: (rest ++ second)) =
          (takeQuoted (rest ++ second)).map fun (text, after) => (c :: text, after) := by
        simp [takeQuoted, other]
      rw [List.cons_append, first, ih next last, Option.map_map, Option.map_map]
      rfl

namespace Token

/-- No token reaches from one text into the other. -/
def Apart (first second : List Char) : Prop :=
  ∀ c ∈ first.getLast?, ∀ d ∈ second.head?,
    ¬ (isNumberChar c = true ∧ isNumberChar d = true) ∧ ¬ (c = '"' ∧ d = '"') ∧
      ¬ ((c = '<' ∨ c = '>') ∧ (d = '=' ∨ d = '>'))

theorem Apart.tail {c : Char} {text second : List Char} (apart : Apart (c :: text) second) :
    Apart text second :=
  fun last member => apart last (List.mem_getLast?_cons member)

theorem Apart.of_head {c : Char} (plain : c ≠ '"' ∧ c ≠ '=' ∧ c ≠ '>') {first : List Char}
    (ends : isNumberChar c = true → ∀ last ∈ first.getLast?, isNumberChar last = false)
    (rest : List Char) : Apart first (c :: rest) := by
  intro last member d head
  obtain rfl := Option.some.inj head
  refine ⟨fun both => ?_, fun both => plain.1 both.2, fun both => ?_⟩
  · rw [ends both.2 last member] at both
    cases both.1
  · exact both.2.elim plain.2.1 plain.2.2

theorem takeWhile_of_apart {text second : List Char} (nonempty : text ≠ [])
    (apart : Apart text second) :
    (text ++ second).takeWhile isNumberChar = text.takeWhile isNumberChar ∧
      (text ++ second).dropWhile isNumberChar = text.dropWhile isNumberChar ++ second := by
  induction text with
  | nil => exact absurd rfl nonempty
  | cons c rest ih =>
      by_cases numeric : isNumberChar c = true
      · cases rest with
        | nil =>
            cases second with
            | nil => simp
            | cons d more =>
                have other : isNumberChar d = false := by
                  have both := (apart c rfl d rfl).1
                  simpa [numeric] using both
                simp [numeric, other]
        | cons next more =>
            obtain ⟨taken, dropped⟩ := ih (by simp) apart.tail
            rw [List.cons_append, List.takeWhile_cons_of_pos numeric,
              List.takeWhile_cons_of_pos numeric, List.dropWhile_cons_of_pos numeric,
              List.dropWhile_cons_of_pos numeric, taken, dropped]
            exact ⟨rfl, rfl⟩
      · rw [List.cons_append, List.takeWhile_cons_of_neg numeric,
          List.takeWhile_cons_of_neg numeric, List.dropWhile_cons_of_neg numeric,
          List.dropWhile_cons_of_neg numeric]
        exact ⟨rfl, rfl⟩

theorem symbol?_append {c : Char} {text second : List Char} (apart : Apart (c :: text) second) :
    symbol? (c :: text ++ second) =
      (symbol? (c :: text)).map fun (token, rest) => (token, rest ++ second) := by
  cases text with
  | nil =>
      cases second with
      | nil =>
          cases found : symbol? [c] with
          | none => simp [found]
          | some result => simp [found]
      | cons d more =>
          have other := (apart c rfl d rfl).2.2
          unfold symbol?
          split <;> simp_all
  | cons next rest =>
      rw [List.cons_append, List.cons_append]
      unfold symbol?
      split <;> first | (rename_i same; cases same; simp_all) | simp_all

theorem first?_append {c : Char} {text second : List Char}
    (outside : endsQuoted false (c :: text) = false) (apart : Apart (c :: text) second) :
    first? (c :: text ++ second) =
      (first? (c :: text)).map fun (token, rest) => (token, rest ++ second) := by
  by_cases isQuote : c = '"'
  · subst isQuote
    have inside : endsQuoted true text = false := by simpa [endsQuoted] using outside
    have last : ∀ c ∈ text.getLast?, ∀ d ∈ second.head?, ¬ (c = '"' ∧ d = '"') :=
      fun c member d head => (apart.tail c member d head).2.1
    simp only [List.cons_append, first?, takeQuoted_append inside last]
    cases takeQuoted text <;> rfl
  · obtain ⟨taken, dropped⟩ := takeWhile_of_apart (by simp) apart
    rw [List.cons_append, first?_of_ne_quote isQuote, first?_of_ne_quote isQuote]
    rw [List.cons_append] at taken dropped
    rw [taken, dropped, ← List.cons_append, symbol?_append apart]
    split
    · cases symbol? (c :: text) <;> rfl
    · split <;> rfl

theorem suffix_of_takeQuoted {text content after : List Char}
    (read : takeQuoted text = some (content, after)) : after <:+ text :=
  ⟨doubleQuotes content ++ ['"'], by simp [eq_of_takeQuoted read]⟩

theorem suffix_of_first? {text rest : List Char} {token : Token}
    (found : first? text = .ok (token, rest)) : rest <:+ text := by
  cases leads_of_first? found with
  | quoted opened read _ =>
      rw [opened]
      exact (suffix_of_takeQuoted read).trans (List.suffix_cons _ _)
  | number spelled _ _ _ => exact ⟨_, spelled.symm⟩
  | symbol _ spelled => exact ⟨_, spelled.symm⟩

theorem endsQuoted_of_first? {text rest : List Char} {token : Token}
    (found : first? text = .ok (token, rest)) : endsQuoted false text = endsQuoted false rest := by
  cases leads_of_first? found with
  | quoted opened read _ => simpa [opened, endsQuoted] using endsQuoted_of_takeQuoted read
  | number spelled numeric _ _ =>
      rw [spelled, endsQuoted_append, endsQuoted_of_flat (isFlat_numeric numeric)]
  | @symbol word member spelled =>
      have outside : ∀ symbol ∈ symbols, endsQuoted false symbol.1 = false := by decide
      rw [spelled, endsQuoted_append, outside _ member]

/-- The tokens of a text in front of another that stands apart come first. -/
theorem ofText_append {first second : List Char} (outside : endsQuoted false first = false)
    (apart : Apart first second) :
    ofText (first ++ second) =
      (ofText first).bind fun tokens => (ofText second).map (tokens ++ ·) := by
  fun_induction ofText first with
  | case1 =>
      rw [List.nil_append]
      cases ofText second <;> rfl
  | case2 c rest blank ih =>
      have notQuote : c ≠ '"' := by
        rintro rfl
        revert blank
        decide
      rw [List.cons_append, ofText_blank blank]
      exact ih (by simpa [endsQuoted, notQuote] using outside) apart.tail
  | case3 c rest visible fault failed =>
      have joined := first?_append outside apart
      rw [failed] at joined
      exact ofText_of_error (by simpa using visible) joined
  | case4 c rest visible token after found ih =>
      have joined := first?_append outside apart
      rw [found] at joined
      have next : endsQuoted false after = false := by rw [← endsQuoted_of_first? found, outside]
      have last : Apart after second := by
        obtain ⟨taken, same⟩ := suffix_of_first? found
        intro d member
        refine apart d ?_
        rw [← same, List.getLast?_append, Option.mem_def.mp member]
        rfl
      have read : ofText (c :: (rest ++ second)) = (ofText (after ++ second)).map (token :: ·) :=
        ofText_of_first? (by simpa using visible) joined
      rw [List.cons_append, read, ih next last]
      cases ofText after with
      | error fault => rfl
      | ok tokens => cases ofText second <;> rfl

theorem exists_of_ofText_append {first second : List Char} (outside : endsQuoted false first = false)
    (apart : Apart first second) {tokens : List Token} (read : ofText (first ++ second) = .ok tokens) :
    ∃ before after, ofText first = .ok before ∧ ofText second = .ok after ∧
      tokens = before ++ after := by
  rw [ofText_append outside apart] at read
  cases left : ofText first with
  | error fault =>
      rw [left] at read
      cases read
  | ok before =>
      cases right : ofText second with
      | error fault =>
          rw [left, right] at read
          cases read
      | ok after =>
          rw [left, right] at read
          exact ⟨before, after, rfl, rfl, (Except.ok.inj read).symm⟩

def endsOperandChar (c : Char) : Bool :=
  isNumberChar c || c == '"' || c == ')'

def startsOperandChar (c : Char) : Bool :=
  isNumberChar c || c == '"' || c == '('

theorem isBlank_of_endsOperandChar {c : Char} (ends : endsOperandChar c = true) :
    isBlank c = false := by
  simp only [endsOperandChar, Bool.or_eq_true, beq_iff_eq] at ends
  rcases ends with (numeric | rfl) | rfl
  · exact isBlank_of_isNumberChar numeric
  · decide
  · decide

theorem isBlank_of_startsOperandChar {c : Char} (starts : startsOperandChar c = true) :
    isBlank c = false := by
  simp only [startsOperandChar, Bool.or_eq_true, beq_iff_eq] at starts
  rcases starts with (numeric | rfl) | rfl
  · exact isBlank_of_isNumberChar numeric
  · decide
  · decide

theorem endsOperand_of_first? {text : List Char} {token : Token}
    (found : first? text = .ok (token, [])) {c : Char} (last : text.getLast? = some c)
    (ends : endsOperandChar c = true) : token.endsOperand = true := by
  cases leads_of_first? found with
  | quoted _ _ same => rw [same, endsOperand]
  | number _ _ _ same => rw [same, endsOperand]
  | @symbol word member spelled =>
      have table : ∀ symbol ∈ symbols, ∀ c ∈ symbol.1.getLast?, endsOperandChar c = true →
          symbol.2.endsOperand = true := by
        simp [symbols, Token.endsOperand, endsOperandChar, isNumberChar]
      rw [spelled, List.append_nil] at last
      exact table _ member c last ends

theorem startsOperand_of_first? {c : Char} {text rest : List Char} {token : Token}
    (found : first? (c :: text) = .ok (token, rest)) (starts : startsOperandChar c = true) :
    token.startsOperand = true := by
  rcases (leads_of_first? found).head_cases with ⟨-, content, rfl⟩ | ⟨-, x, rfl⟩ | ⟨more, member⟩
  · rfl
  · rfl
  · have table : ∀ symbol ∈ symbols, ∀ c ∈ symbol.1.head?, startsOperandChar c = true →
        symbol.2.startsOperand = true := by
      simp [symbols, startsOperand, startsOperandChar, isNumberChar]
    exact table _ member c rfl starts

theorem Lexed.endsOperand {text : List Char} {tokens : List Token} (lexed : Lexed text tokens)
    {c : Char} (last : text.getLast? = some c) (ends : endsOperandChar c = true) :
    ∃ token, tokens.getLast? = some token ∧ token.endsOperand = true := by
  induction lexed with
  | nil => cases last
  | @blank first rest tokens blank later ih =>
      refine ih ?_
      cases rest with
      | nil =>
          obtain rfl : first = c := by simpa using last
          rw [isBlank_of_endsOperandChar ends] at blank
          cases blank
      | cons next more => simpa using last
  | @token first rest after token tokens found later ih =>
      cases after with
      | nil =>
          cases later
          exact ⟨token, rfl, endsOperand_of_first? found last ends⟩
      | cons next more =>
          obtain ⟨taken, same⟩ := suffix_of_first? found
          rw [← same, List.getLast?_append] at last
          obtain ⟨final, isLast, finalEnds⟩ := ih (by simpa using last)
          exact ⟨final, by simp [List.getLast?_cons, isLast], finalEnds⟩

theorem Lexed.startsOperand {c : Char} {text : List Char} {tokens : List Token}
    (lexed : Lexed (c :: text) tokens) (starts : startsOperandChar c = true) :
    ∃ token, tokens.head? = some token ∧ token.startsOperand = true := by
  cases lexed with
  | blank blank later =>
      rw [isBlank_of_startsOperandChar starts] at blank
      cases blank
  | token found later => exact ⟨_, rfl, startsOperand_of_first? found starts⟩

end Token

end Worksheet
