import Mathlib
import Worksheet.Proofs.Bounded.Basic
import Worksheet.Proofs.Expression.Breaks
import Worksheet.Proofs.Expression.Clash

/-!
# Reading expressions by indices

Tokens are read by indices into the characters of a text. The expression is read with a count of the
open groups and signs, which goes up where one opens and down where one has its operand. The count is
never taken below zero, because it is the number of the open frames that nest.
-/

set_option autoImplicit false

namespace Worksheet

namespace Token

def numberEnd? (chars : List Char) (index : Nat) : Option Nat :=
  if index < chars.length then do
    let c ← chars[index]?
    if isNumberChar c then numberEnd? chars (index + 1) else return index
  else return index
termination_by chars.length - index

def tokenAt (chars : List Char) (index : Nat) (c : Char) : Bounded (Token × Nat) :=
  if isNumberChar c then do
    let stop ← Bounded.reach (numberEnd? chars index)
    let digits ← Bounded.reach (part? chars index stop)
    match Numeral.magnitude? digits with
    | some magnitude => return (number (magnitude.toFloat false), stop)
    | none => throw (.invalidExpression .malformedNumber)
  else
    match first? (chars.drop index) with
    | .ok (token, after) => return (token, chars.length - after.length)
    | .error fault => throw (.invalidExpression fault)

def tokensFrom (chars : List Char) (index : Nat) : Bounded (List Token) :=
  if _below : index < chars.length then do
    let c ← Bounded.reach chars[index]?
    if isBlank c then tokensFrom chars (index + 1)
    else
      let (token, next) ← tokenAt chars index c
      if _advances : index < next then return token :: (← tokensFrom chars next)
      else Bounded.reach none
  else return []
termination_by chars.length - index

variable {chars front rest : List Char} {index : Nat}

theorem numberEnd?_append {digits : List Char} (chars_eq : chars = front ++ (digits ++ rest))
    (index_eq : index = front.length) (numeric : ∀ c ∈ digits, isNumberChar c = true)
    (ends : EndsNumber rest) : numberEnd? chars index = some (index + digits.length) := by
  induction digits generalizing front index with
  | nil =>
      rw [numberEnd?]
      split
      · cases rest with
        | nil =>
            rename_i below
            rw [chars_eq, index_eq] at below
            simp at below
        | cons c rest =>
            rw [getElem?_append_cons chars_eq index_eq, Option.bind_eq_bind, Option.bind_some,
              if_neg (by simp [ends c rfl])]
            rfl
      · rfl
  | cons c more ih =>
      have here := getElem?_append_cons chars_eq index_eq
      obtain ⟨below, -⟩ := List.getElem?_eq_some_iff.mp here
      have onward := @ih (front ++ [c]) (index + 1) (by simp [chars_eq]) (by simp [index_eq])
        fun other member => numeric other (List.mem_cons_of_mem _ member)
      rw [numberEnd?, if_pos below, here, Option.bind_eq_bind, Option.bind_some,
        if_pos (numeric c List.mem_cons_self), onward, List.length_cons, Nat.add_assoc,
        Nat.add_comm 1]

def faulty {α : Type} (read : Except Fault α) : Except FormulaError α :=
  read.mapError .invalidExpression

theorem tokenAt_append {c : Char} (chars_eq : chars = front ++ c :: rest)
    (index_eq : index = front.length) :
    tokenAt chars index c =
      (fun (token, after) => (token, chars.length - after.length)) <$>
        Bounded.within (faulty (first? (c :: rest))) := by
  rw [tokenAt]
  split
  · rename_i numeric
    have notQuote : c ≠ '"' := by
      rintro rfl
      revert numeric
      decide
    have whole := List.takeWhile_append_dropWhile (p := isNumberChar) (l := c :: rest)
    have members (d : Char) (member : d ∈ (c :: rest).takeWhile isNumberChar) :
        isNumberChar d = true := List.mem_takeWhile_imp member
    have ends : EndsNumber ((c :: rest).dropWhile isNumberChar) := by
      intro d head
      have stops := List.head?_dropWhile_not isNumberChar (c :: rest)
      rw [Option.mem_def.mp head] at stops
      exact stops
    have taken : (c :: rest).takeWhile isNumberChar ≠ [] := by
      rw [List.takeWhile_cons_of_pos numeric]
      exact List.cons_ne_nil _ _
    rw [first?_of_ne_quote notQuote]
    generalize (c :: rest).takeWhile isNumberChar = digits at *
    generalize (c :: rest).dropWhile isNumberChar = after at *
    have chars_eq' : chars = front ++ (digits ++ after) := by rw [whole, chars_eq]
    have stop := numberEnd?_append chars_eq' index_eq members ends
    have part : part? chars index (index + digits.length) = some digits :=
      part?_append chars_eq' index_eq (by rw [index_eq])
    have behind : chars.length - after.length = index + digits.length := by
      rw [chars_eq', index_eq, List.length_append, List.length_append]
      omega
    rw [stop, Bounded.reach_some, pure_bind, part, Bounded.reach_some, pure_bind, ← behind]
    split
    · rename_i read
      obtain ⟨first, more, rfl⟩ := List.exists_cons_of_ne_nil taken
      simp only [read]
      rfl
    · rename_i unread
      obtain ⟨first, more, rfl⟩ := List.exists_cons_of_ne_nil taken
      simp only [unread]
      rfl
  · have left : chars.drop index = c :: rest := by rw [chars_eq, index_eq, List.drop_left]
    rw [left]
    cases first? (c :: rest) <;> rfl

theorem tokensFrom_append (chars_eq : chars = front ++ rest) (index_eq : index = front.length) :
    tokensFrom chars index = Bounded.within (faulty (ofText rest)) := by
  induction length : rest.length using Nat.strong_induction_on generalizing rest front index with
  | _ n ih =>
  cases rest with
  | nil =>
      rw [tokensFrom, dif_neg (by rw [chars_eq, index_eq]; simp), ofText_nil]
      rfl
  | cons c rest =>
      have here := getElem?_append_cons chars_eq index_eq
      obtain ⟨below, -⟩ := List.getElem?_eq_some_iff.mp here
      rw [tokensFrom, dif_pos below, here, Bounded.reach_some, pure_bind]
      by_cases blank : isBlank c = true
      · have shorter : rest.length < n := by
          rw [← length, List.length_cons]
          exact Nat.lt_succ_self _
        rw [if_pos blank, ofText_blank blank]
        exact @ih _ shorter (front ++ [c]) rest _ (by rw [chars_eq, List.append_cons])
          (by rw [index_eq, List.length_append]; rfl) rfl
      · have visible : isBlank c = false := by simpa using blank
        rw [if_neg blank, tokenAt_append chars_eq index_eq]
        cases read : first? (c :: rest) with
        | error fault =>
            rw [ofText_of_error visible read]
            rfl
        | ok found =>
            obtain ⟨token, after⟩ := found
            obtain ⟨taken, whole⟩ := suffix_of_first? read
            have shorter := first?_length read
            have next : chars.length - after.length = (front ++ taken).length := by
              rw [chars_eq, ← whole, ← List.append_assoc, List.length_append, Nat.add_sub_cancel]
            have advances : index < chars.length - after.length := by
              rw [chars_eq, index_eq, List.length_append]
              omega
            have onward := @ih _ (length ▸ shorter) (front ++ taken) after _
              (by rw [chars_eq, ← whole, List.append_assoc]) next rfl
            rw [ofText_of_first? visible read]
            change (if _ : index < chars.length - after.length then
              (token :: ·) <$> tokensFrom chars (chars.length - after.length) else _) = _
            rw [dif_pos advances, onward]
            cases ofText after <;> rfl

end Token

namespace Expression

/-! ## The count of open groups and signs -/

def settleCounting (strength depth : Nat) :
    List Frame → Expression → Option (Nat × List Frame × Expression)
  | [], operand => some (depth, [], operand)
  | frame :: frames, operand =>
      if strength ≤ frame.strength then do
        let depth ← if frame.isNesting then minus? depth 1 else some depth
        settleCounting strength depth frames (frame.fill operand)
      else some (depth, frame :: frames, operand)

/-- Closes the frames up to the group around them, and that group over an error if there is one. -/
def spoilCounting (depth : Nat) (frames : List Frame) (operand : Expression)
    (unclosed : Expression → Expression) : Option Expression := do
  match ← settleCounting 1 depth frames operand with
  | (_, [], whole) => return unclosed whole
  | (depth, _ :: outer, whole) =>
      let _ ← minus? depth 1
      return fillAll outer (.spoiled whole .unbalancedParentheses)

mutual

def readOperandCounting (depth : Nat) (frames : List Frame) : List Token → Option Expression
  | [] => some (fillAll frames (.missing (.invalidExpression .unexpectedEnd)))
  | .number x :: rest => readOperatorCounting depth frames (.number x) rest
  | .text content :: rest => readOperatorCounting depth frames (.text content) rest
  | token :: rest =>
      match openedBy? token with
      | some frame =>
          if depth + 1 ≤ groupLimit then readOperandCounting (depth + 1) (frame :: frames) rest
          else some (fillAll frames (.missing (.tooComplex groupLimit)))
      | none => some (fillAll frames (.missing (misplaced token)))

def readOperatorCounting (depth : Nat) (frames : List Frame) (operand : Expression) :
    List Token → Option Expression
  | [] => spoilCounting depth frames operand id
  | .operator operator :: rest => do
      match ← settleCounting (max 2 operator.strength) depth frames operand with
      | (depth, outer, left) =>
          if operator.strength = 1 && isComparing outer then
            spoilCounting depth outer left fun whole =>
              .spoiled whole (.invalidExpression .unexpectedToken)
          else readOperandCounting depth (.binary left operator :: outer) rest
  | .closing :: rest => do
      match ← settleCounting 1 depth frames operand with
      | (_, [], whole) => return .spoiled whole (.invalidExpression .unexpectedToken)
      | (depth, _ :: outer, whole) =>
          let depth ← minus? depth 1
          readOperatorCounting depth outer (.group whole) rest
  | _ :: _ =>
      spoilCounting depth frames operand fun whole =>
        .spoiled whole (.invalidExpression .unexpectedToken)

end

/-- The count is the number of the open frames that nest. -/
abbrev openNesting (frames : List Frame) : Nat :=
  frames.countP Frame.isNesting

theorem settleCounting_nesting (strength : Nat) (frames : List Frame) (operand : Expression) :
    settleCounting strength (openNesting frames) frames operand =
      some (openNesting (settle strength frames operand).1, settle strength frames operand) := by
  induction frames generalizing operand with
  | nil => rfl
  | cons frame frames ih =>
      rw [settleCounting, settle]
      split
      · cases nests : frame.isNesting with
        | true =>
            have count : openNesting (frame :: frames) = openNesting frames + 1 :=
              List.countP_cons_of_pos nests
            rw [if_pos rfl, count, minus?_of_le (Nat.le_add_left _ _), Nat.add_sub_cancel]
            exact ih _
        | false =>
            have count : openNesting (frame :: frames) = openNesting frames :=
              List.countP_cons_of_neg (by simp [nests])
            rw [if_neg Bool.false_ne_true, count]
            exact ih _
      · rfl

theorem nesting_of_openedBy? {token : Token} {frame : Frame} (opened : openedBy? token = some frame)
    (frames : List Frame) : openNesting (frame :: frames) = openNesting frames + 1 :=
  List.countP_cons_of_pos (isNesting_of_openedBy? opened)

theorem minus?_of_settle {frames outer : List Frame} {frame : Frame} {operand whole : Expression}
    (settled : settle 1 frames operand = (frame :: outer, whole)) :
    minus? (openNesting (frame :: outer)) 1 = some (openNesting outer) := by
  have count : openNesting (frame :: outer) = openNesting outer + 1 := by
    rw [head_of_settle_one settled]
    exact List.countP_cons_of_pos rfl
  rw [count, minus?_of_le (Nat.le_add_left _ _), Nat.add_sub_cancel]

theorem spoilCounting_nesting (frames : List Frame) (operand : Expression)
    (unclosed : Expression → Expression) :
    spoilCounting (openNesting frames) frames operand unclosed =
      some (match settle 1 frames operand with
        | ([], whole) => unclosed whole
        | (_ :: outer, whole) => fillAll outer (.spoiled whole .unbalancedParentheses)) := by
  rw [spoilCounting, settleCounting_nesting, Option.bind_eq_bind, Option.bind_some]
  rcases settled : settle 1 frames operand with ⟨_ | ⟨frame, outer⟩, whole⟩
  · rfl
  · simp only [minus?_of_settle settled]
    rfl

theorem spoilCounting_finish (frames : List Frame) (operand : Expression) :
    spoilCounting (openNesting frames) frames operand id = some (finish frames operand) :=
  spoilCounting_nesting frames operand id

theorem spoilCounting_interrupt (frames : List Frame) (operand : Expression) :
    spoilCounting (openNesting frames) frames operand
        (fun whole => .spoiled whole (.invalidExpression .unexpectedToken)) =
      some (interrupt frames operand) :=
  spoilCounting_nesting frames operand _

/-- An expression is read without taking the count below zero. -/
theorem readCounting_nesting (tokens : List Token) :
    (∀ frames, readOperandCounting (openNesting frames) frames tokens =
        some (readOperand frames tokens)) ∧
      ∀ frames operand, readOperatorCounting (openNesting frames) frames operand tokens =
        some (readOperator frames operand tokens) := by
  -- the count is that of the open groups and signs, so the frames determine it
  induction tokens with
  | nil =>
      refine ⟨fun frames => rfl, fun frames operand => ?_⟩
      rw [readOperatorCounting, readOperator, spoilCounting_finish]
  | cons token rest ih =>
      obtain ⟨ihOperand, ihOperator⟩ := ih
      constructor
      · intro frames
        cases opened : openedBy? token with
        | some frame =>
            have counted : readOperandCounting (openNesting frames) frames (token :: rest) =
                if openNesting frames + 1 ≤ groupLimit then
                  readOperandCounting (openNesting frames + 1) (frame :: frames) rest
                else some (fillAll frames (.missing (.tooComplex groupLimit))) := by
              unfold openedBy? at opened
              split at opened <;> cases opened <;> simp only [readOperandCounting, openedBy?]
            rw [counted, readOperand_opened opened, ← nesting_of_openedBy? opened, ihOperand,
              nesting_of_openedBy? opened]
            by_cases room : openNesting frames < groupLimit
            · rw [if_pos (Nat.succ_le_of_lt room), if_pos room]
            · rw [if_neg (mt Nat.lt_of_succ_le room), if_neg room]
        | none =>
            cases token with
            | number x => rw [readOperandCounting, readOperand, ihOperator]
            | text content => rw [readOperandCounting, readOperand, ihOperator]
            | opening => cases opened
            | closing => simp only [readOperandCounting, readOperand, openedBy?]
            | operator operator =>
                cases operator with
                | add => cases opened
                | subtract => cases opened
                | _ => simp only [readOperandCounting, readOperand, openedBy?]
      · intro frames operand
        cases token with
        | operator operator =>
            rw [readOperatorCounting, readOperator, settleCounting_nesting, Option.bind_eq_bind,
              Option.bind_some]
            rcases settle (max 2 operator.strength) frames operand with ⟨outer, left⟩
            by_cases chained : (operator.strength = 1 && isComparing outer) = true
            · simp only [if_pos chained, spoilCounting_interrupt]
            · simp only [if_neg chained]
              exact ihOperand (.binary left operator :: outer)
        | closing =>
            rw [readOperatorCounting, readOperator, settleCounting_nesting, Option.bind_eq_bind,
              Option.bind_some]
            rcases settled : settle 1 frames operand with ⟨_ | ⟨frame, outer⟩, whole⟩
            · rfl
            · simp only [minus?_of_settle settled]
              exact ihOperator outer (.group whole)
        | _ =>
            simp only [readOperatorCounting, readOperator, spoilCounting_interrupt]

def valueOfAt (text : List Char) : Bounded Value := do
  match ← Token.tokensFrom text 0 with
  | [] => throw (.invalidExpression .emptyExpression)
  | first :: rest =>
      let expression ← Bounded.reach (readOperandCounting 0 [] (first :: rest))
      let value ← Bounded.within expression.eval
      Bounded.within (requireFinite (.invalidExpression .notFinite) value)

theorem valueOfAt_eq (text : List Char) : valueOfAt text = Bounded.within (valueOf text) := by
  have read := @Token.tokensFrom_append text [] text 0 rfl rfl
  rw [valueOfAt, valueOf, read]
  cases Token.ofText text with
  | error fault => rfl
  | ok tokens =>
      cases tokens with
      | nil => rfl
      | cons first rest =>
          have expression : readOperandCounting 0 [] (first :: rest) =
              some (ofTokens (first :: rest)) := (readCounting_nesting (first :: rest)).1 []
          change (Bounded.reach (readOperandCounting 0 [] (first :: rest)) >>= _) = _
          rw [expression, Bounded.reach_some, pure_bind, Bounded.within_bind]

end Expression

end Worksheet
