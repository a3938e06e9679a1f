import Mathlib
import Worksheet.Expression.Evaluation
import Worksheet.Proofs.Expression.Reading
import Worksheet.Proofs.Outcome

/-!
# Where an expression breaks off

An expression without breaks fails only when it divides by zero or takes a text for a number. Any
other error of an expression is that of one of its breaks. The reader breaks an expression off at
most where a token is out of place, and it blames the parentheses only inside a group. None of these
errors mentions anything that the expression holds: they are the same few for all texts.
-/

set_option autoImplicit false

namespace Worksheet

namespace Expression

def breaks : Expression → List FormulaError
  | number _ => []
  | text _ => []
  | sign _ operand => operand.breaks
  | group inner => inner.breaks
  | binary _ left right => left.breaks ++ right.breaks
  | missing error => [error]
  | spoiled whole error => whole.breaks ++ [error]

theorem toOperand_eq_error {value : Value} {error : FormulaError}
    (failed : value.toOperand = .error error) : error = .invalidExpression .textInArithmetic := by
  cases value with
  | number x => cases failed
  | text content =>
      cases plain : plainNumber? content with
      | some x => simp [Value.toOperand, plain] at failed
      | none =>
          simp only [Value.toOperand, plain] at failed
          exact (Except.error.inj failed).symm

theorem apply_eq_error {operator : Operator} {left right : Value} {error : FormulaError}
    (failed : operator.apply left right = .error error) :
    error = .divisionByZero ∨ error = .invalidExpression .textInArithmetic := by
  have arithmetic (failed : (do
      let b ← right.toOperand
      let a ← left.toOperand
      return Value.number (← operator.compute a b)) = Except.error error) :
      error = .divisionByZero ∨ error = .invalidExpression .textInArithmetic := by
    rcases Outcome.bind_eq_error.mp failed with failed | ⟨b, _, failed⟩
    · exact .inr (toOperand_eq_error failed)
    rcases Outcome.bind_eq_error.mp failed with failed | ⟨a, _, failed⟩
    · exact .inr (toOperand_eq_error failed)
    rcases Outcome.bind_eq_error.mp failed with failed | ⟨x, _, failed⟩
    · cases operator with
      | divide =>
          by_cases zero : (b == 0.0) = true
          · simp only [Operator.compute, if_pos zero] at failed
            exact .inl (Except.error.inj failed).symm
          · simp [Operator.compute, zero] at failed
      | _ => cases failed
    · cases failed
  cases operator with
  | compare relation => cases failed
  | _ => exact arithmetic failed

/-- An expression fails with the error of one of its breaks, by division or on a text. -/
theorem eval_eq_error {expression : Expression} {error : FormulaError}
    (failed : expression.eval = .error error) :
    error ∈ expression.breaks ∨ error = .divisionByZero ∨
      error = .invalidExpression .textInArithmetic := by
  induction expression with
  | number x => cases failed
  | text content => cases failed
  | sign negative operand ih =>
      rcases Outcome.bind_eq_error.mp failed with failed | ⟨value, _, failed⟩
      · exact ih failed
      rcases Outcome.bind_eq_error.mp failed with failed | ⟨x, _, failed⟩
      · exact .inr (.inr (toOperand_eq_error failed))
      · cases failed
  | group inner ih => exact ih failed
  | binary operator left right ihLeft ihRight =>
      rcases Outcome.bind_eq_error.mp failed with failed | ⟨a, _, failed⟩
      · exact (ihLeft failed).imp_left (List.mem_append_left _)
      rcases Outcome.bind_eq_error.mp failed with failed | ⟨b, _, failed⟩
      · exact (ihRight failed).imp_left (List.mem_append_right _)
      · exact .inr (apply_eq_error failed)
  | missing first =>
      obtain rfl := Except.error.inj failed
      exact .inl (List.mem_singleton_self _)
  | spoiled whole last ih =>
      rcases Outcome.bind_eq_error.mp failed with failed | ⟨value, _, failed⟩
      · exact (ih failed).imp_left (List.mem_append_left _)
      · obtain rfl := Except.error.inj failed
        exact .inl (List.mem_append_right _ (List.mem_singleton_self _))

/-! ## Frames -/

end Expression

def Frame.breaks : Frame → List FormulaError
  | binary left _ => left.breaks
  | _ => []

namespace Expression

theorem breaks_fill (frame : Frame) (operand : Expression) :
    (frame.fill operand).breaks = frame.breaks ++ operand.breaks := by
  cases frame <;> rfl

def breaksIn (frames : List Frame) (operand : Expression) : List FormulaError :=
  frames.flatMap Frame.breaks ++ operand.breaks

theorem mem_breaksIn_fill {frame : Frame} {frames : List Frame} {operand : Expression}
    {error : FormulaError} :
    error ∈ breaksIn frames (frame.fill operand) ↔ error ∈ breaksIn (frame :: frames) operand := by
  simp only [breaksIn, breaks_fill, List.flatMap_cons, List.mem_append]
  tauto

theorem mem_breaks_fillAll {frames : List Frame} {operand : Expression} {error : FormulaError} :
    error ∈ (fillAll frames operand).breaks ↔ error ∈ breaksIn frames operand := by
  induction frames generalizing operand with
  | nil => simp [fillAll, breaksIn]
  | cons frame frames ih =>
      have step : fillAll (frame :: frames) operand = fillAll frames (frame.fill operand) := rfl
      rw [step, ih, mem_breaksIn_fill]

theorem mem_breaks_fillAll_missing {frames : List Frame} {reason error : FormulaError}
    (member : error ∈ (fillAll frames (.missing reason)).breaks) :
    error ∈ frames.flatMap Frame.breaks ∨ error = reason := by
  rcases List.mem_append.mp (mem_breaks_fillAll.mp member) with inFrames | here
  · exact .inl inFrames
  · exact .inr (List.mem_singleton.mp here)

theorem settle_spec (strength : Nat) (frames : List Frame) (operand : Expression) :
    (settle strength frames operand).1 <:+ frames ∧
      breaksIn (settle strength frames operand).1 (settle strength frames operand).2 ⊆
        breaksIn frames operand := by
  induction frames generalizing operand with
  | nil => exact ⟨List.suffix_refl _, List.Subset.refl _⟩
  | cons frame frames ih =>
      unfold settle
      split
      · obtain ⟨suffix, subset⟩ := ih (frame.fill operand)
        refine ⟨suffix.trans (List.suffix_cons _ _), ?_⟩
        intro error member
        exact mem_breaksIn_fill.mp (subset member)
      · exact ⟨List.suffix_refl _, List.Subset.refl _⟩

theorem head_of_settle_one {frames outer : List Frame} {frame : Frame} {operand whole : Expression}
    (settled : settle 1 frames operand = (frame :: outer, whole)) : frame = .group := by
  induction frames generalizing operand with
  | nil => cases settled
  | cons first frames ih =>
      unfold settle at settled
      split at settled
      · exact ih settled
      · rename_i loose
        obtain ⟨same, _⟩ := Prod.mk.inj settled
        obtain ⟨rfl, _⟩ := List.cons.inj same
        cases first with
        | group => rfl
        | sign negative => exact absurd (Nat.succ_pos 3) loose
        | binary left operator => exact absurd operator.strength_pos loose

theorem settle_one_cases (frames : List Frame) (operand : Expression) :
    (∃ whole, settle 1 frames operand = ([], whole) ∧ whole.breaks ⊆ breaksIn frames operand) ∨
      ∃ outer whole, settle 1 frames operand = (.group :: outer, whole) ∧
        .group :: outer <:+ frames ∧ breaksIn outer whole ⊆ breaksIn frames operand := by
  obtain ⟨suffix, subset⟩ := settle_spec 1 frames operand
  rcases settled : settle 1 frames operand with ⟨open', whole⟩
  rw [settled] at suffix subset
  cases open' with
  | nil => exact .inl ⟨whole, rfl, subset⟩
  | cons frame outer =>
      obtain rfl := head_of_settle_one settled
      exact .inr ⟨outer, whole, rfl, suffix, subset⟩

theorem mem_breaks_unclosed {outer : List Frame} {whole : Expression} {error : FormulaError}
    (member : error ∈ (fillAll outer (.spoiled whole .unbalancedParentheses)).breaks) :
    error ∈ breaksIn outer whole ∨ error = .unbalancedParentheses := by
  rcases List.mem_append.mp (mem_breaks_fillAll.mp member) with inFrames | inWhole
  · exact .inl (List.mem_append_left _ inFrames)
  rcases List.mem_append.mp inWhole with before | here
  · exact .inl (List.mem_append_right _ before)
  · exact .inr (List.mem_singleton.mp here)

theorem mem_breaks_interrupt {frames : List Frame} {operand : Expression} {error : FormulaError}
    (member : error ∈ (interrupt frames operand).breaks) :
    error ∈ breaksIn frames operand ∨ error = .invalidExpression .unexpectedToken ∨
      error = .unbalancedParentheses ∧ Frame.group ∈ frames := by
  unfold interrupt at member
  rcases settle_one_cases frames operand with
    ⟨whole, settled, subset⟩ | ⟨outer, whole, settled, suffix, subset⟩
  · rw [settled] at member
    rcases List.mem_append.mp member with before | here
    · exact .inl (subset before)
    · exact .inr (.inl (List.mem_singleton.mp here))
  · rw [settled] at member
    rcases mem_breaks_unclosed member with before | unclosed
    · exact .inl (subset before)
    · exact .inr (.inr ⟨unclosed, suffix.subset List.mem_cons_self⟩)

theorem mem_breaks_finish {frames : List Frame} {operand : Expression} {error : FormulaError}
    (member : error ∈ (finish frames operand).breaks) :
    error ∈ breaksIn frames operand ∨ error = .unbalancedParentheses ∧ Frame.group ∈ frames := by
  unfold finish at member
  rcases settle_one_cases frames operand with
    ⟨whole, settled, subset⟩ | ⟨outer, whole, settled, suffix, subset⟩
  · rw [settled] at member
    exact .inl (subset member)
  · rw [settled] at member
    rcases mem_breaks_unclosed member with before | unclosed
    · exact .inl (subset before)
    · exact .inr ⟨unclosed, suffix.subset List.mem_cons_self⟩

/-! ## One token -/

theorem readOperand_of_openedBy? {token : Token} {frame : Frame}
    (opened : openedBy? token = some frame) (frames : List Frame) (rest : List Token) :
    readOperand frames (token :: rest) = readOperand (frame :: frames) rest ∨
      readOperand frames (token :: rest) = fillAll frames (.missing (.tooComplex groupLimit)) := by
  rw [readOperand_opened opened]
  split
  · exact .inl rfl
  · exact .inr rfl

theorem readOperand_cons_cases (frames : List Frame) (token : Token) (rest : List Token) :
    (∃ operand, operand.breaks = [] ∧
        readOperand frames (token :: rest) = readOperator frames operand rest) ∨
      (∃ frame, openedBy? token = some frame ∧
        readOperand frames (token :: rest) = readOperand (frame :: frames) rest) ∨
      ∃ error, (error = .tooComplex groupLimit ∨ error = misplaced token) ∧
        readOperand frames (token :: rest) = fillAll frames (.missing error) := by
  cases opened : openedBy? token with
  | some frame =>
      right
      rcases readOperand_of_openedBy? opened frames rest with onward | deep
      · exact .inl ⟨frame, rfl, onward⟩
      · exact .inr ⟨_, .inl rfl, deep⟩
  | none =>
      cases token with
      | number x => exact .inl ⟨.number x, rfl, by rw [readOperand]⟩
      | text content => exact .inl ⟨.text content, rfl, by rw [readOperand]⟩
      | opening => cases opened
      | closing => exact .inr (.inr ⟨_, .inr rfl, by simp only [readOperand, openedBy?]⟩)
      | operator operator =>
          right
          right
          refine ⟨_, .inr rfl, ?_⟩
          cases operator with
          | add => cases opened
          | subtract => cases opened
          | _ => simp only [readOperand, openedBy?]

theorem breaks_of_openedBy? {token : Token} {frame : Frame}
    (opened : openedBy? token = some frame) :
    frame.breaks = [] := by
  unfold openedBy? at opened
  split at opened <;> cases opened <;> rfl

theorem readOperator_operator_cases (frames : List Frame) (operand : Expression)
    (operator : Operator) (rest : List Token) :
    ∃ outer left, outer <:+ frames ∧ breaksIn outer left ⊆ breaksIn frames operand ∧
      (readOperator frames operand (.operator operator :: rest) = interrupt outer left ∨
        readOperator frames operand (.operator operator :: rest) =
          readOperand (.binary left operator :: outer) rest) := by
  obtain ⟨suffix, subset⟩ := settle_spec (max 2 operator.strength) frames operand
  rcases settled : settle (max 2 operator.strength) frames operand with ⟨outer, left⟩
  rw [settled] at suffix subset
  refine ⟨outer, left, suffix, subset, ?_⟩
  rw [readOperator, settled]
  by_cases chained : (operator.strength = 1 && isComparing outer) = true
  · exact .inl (if_pos chained)
  · exact .inr (if_neg chained)

end Expression

def FormulaError.isReading : FormulaError → Bool
  | invalidExpression _ | unbalancedParentheses | tooComplex _ => true
  | _ => false

namespace Expression

def breakErrors : List FormulaError :=
  [.invalidExpression .unexpectedEnd, .invalidExpression .unexpectedOperator,
    .invalidExpression .unexpectedToken, .unbalancedParentheses, .tooComplex groupLimit]

theorem misplaced_mem_breakErrors (token : Token) : misplaced token ∈ breakErrors := by
  cases token <;> simp [misplaced, breakErrors]

theorem mem_breakErrors_of_interrupt {frames : List Frame} {operand : Expression}
    {error : FormulaError} (member : error ∈ (interrupt frames operand).breaks) :
    error ∈ breaksIn frames operand ∨ error ∈ breakErrors := by
  rcases mem_breaks_interrupt member with before | rfl | ⟨rfl, _⟩
  · exact .inl before
  · exact .inr (by simp [breakErrors])
  · exact .inr (by simp [breakErrors])

/-- Reading on with these tokens adds breaks of the reader only. -/
structure AddsBreakErrors (tokens : List Token) : Prop where
  readOperand (frames : List Frame) : ∀ error ∈ (readOperand frames tokens).breaks,
    error ∈ frames.flatMap Frame.breaks ∨ error ∈ breakErrors
  readOperator (frames : List Frame) (operand : Expression) :
    ∀ error ∈ (readOperator frames operand tokens).breaks,
      error ∈ breaksIn frames operand ∨ error ∈ breakErrors

namespace AddsBreakErrors

theorem nil : AddsBreakErrors [] where
  readOperand frames error member := by
    rw [Expression.readOperand] at member
    rcases mem_breaks_fillAll_missing member with before | rfl
    · exact .inl before
    · exact .inr (by simp [breakErrors])
  readOperator frames operand error member := by
    rw [Expression.readOperator] at member
    rcases mem_breaks_finish member with before | ⟨rfl, _⟩
    · exact .inl before
    · exact .inr (by simp [breakErrors])

variable {rest : List Token} (adds : AddsBreakErrors rest) (frames : List Frame)
include adds

theorem readOperand_cons (token : Token) :
    ∀ error ∈ (Expression.readOperand frames (token :: rest)).breaks,
      error ∈ frames.flatMap Frame.breaks ∨ error ∈ breakErrors := by
  intro error member
  rcases readOperand_cons_cases frames token rest with
    ⟨operand, unbroken, step⟩ | ⟨frame, opened, step⟩ | ⟨reason, kind, step⟩
  · rw [step] at member
    have later := adds.readOperator frames operand error member
    rwa [breaksIn, unbroken, List.append_nil] at later
  · rw [step] at member
    have later := adds.readOperand _ error member
    rwa [List.flatMap_cons, breaks_of_openedBy? opened, List.nil_append] at later
  · rw [step] at member
    refine (mem_breaks_fillAll_missing member).imp_right ?_
    rintro rfl
    rcases kind with rfl | rfl
    · simp [breakErrors]
    · exact misplaced_mem_breakErrors token

theorem readOperator_closing (operand : Expression) :
    ∀ error ∈ (Expression.readOperator frames operand (.closing :: rest)).breaks,
      error ∈ breaksIn frames operand ∨ error ∈ breakErrors := by
  intro error member
  rw [Expression.readOperator] at member
  rcases settle_one_cases frames operand with
    ⟨whole, settled, subset⟩ | ⟨outer, whole, settled, _, subset⟩
  · rw [settled] at member
    rcases List.mem_append.mp member with before | here
    · exact .inl (subset before)
    · rw [List.mem_singleton.mp here]
      exact .inr (by simp [breakErrors])
  · rw [settled] at member
    exact (adds.readOperator outer _ error member).imp_left fun before => subset before

theorem readOperator_operator (operand : Expression) (operator : Operator) :
    ∀ error ∈ (Expression.readOperator frames operand (.operator operator :: rest)).breaks,
      error ∈ breaksIn frames operand ∨ error ∈ breakErrors := by
  intro error member
  obtain ⟨outer, left, _, subset, step | step⟩ :=
    readOperator_operator_cases frames operand operator rest
  · rw [step] at member
    exact (mem_breakErrors_of_interrupt member).imp_left fun before => subset before
  · rw [step] at member
    refine (adds.readOperand _ error member).imp_left ?_
    intro before
    apply subset
    rw [List.flatMap_cons] at before
    exact List.mem_append.mpr (List.mem_append.mp before).symm

theorem cons (token : Token) : AddsBreakErrors (token :: rest) where
  readOperand frames := adds.readOperand_cons frames token
  readOperator frames operand error member := by
    cases token with
    | number x | text content | opening => exact mem_breakErrors_of_interrupt member
    | closing => exact adds.readOperator_closing frames operand error member
    | operator operator => exact adds.readOperator_operator frames operand operator error member

end AddsBreakErrors

theorem addsBreakErrors (tokens : List Token) : AddsBreakErrors tokens := by
  induction tokens with
  | nil => exact .nil
  | cons token rest ih => exact ih.cons token

def textFaults : List Fault :=
  [.unterminatedString, .unexpectedCharacter, .malformedNumber, .emptyExpression, .textInArithmetic,
    .notFinite]

theorem mem_textFaults_of_first? {text : List Char} {fault : Fault}
    (failed : Token.first? text = .error fault) : fault ∈ textFaults := by
  unfold Token.first? at failed
  split at failed
  · split at failed
    · cases failed
    · obtain rfl := Except.error.inj failed
      simp [textFaults]
  · split at failed
    · cases symbol : Token.symbol? text with
      | none =>
          rw [symbol] at failed
          obtain rfl := Except.error.inj failed
          simp [textFaults]
      | some read =>
          rw [symbol] at failed
          cases failed
    · split at failed
      · cases failed
      · obtain rfl := Except.error.inj failed
        simp [textFaults]

theorem mem_textFaults_of_ofText {text : List Char} {fault : Fault}
    (failed : Token.ofText text = .error fault) : fault ∈ textFaults := by
  fun_induction Token.ofText text with
  | case1 => cases failed
  | case2 c rest blank ih => exact ih failed
  | case3 c rest visible reason found =>
      obtain rfl := Except.error.inj failed
      exact mem_textFaults_of_first? found
  | case4 c rest visible token after found ih =>
      cases others : Token.ofText after with
      | error reason =>
          rw [others] at failed
          obtain rfl := Except.error.inj failed
          exact ih others
      | ok tokens =>
          rw [others] at failed
          cases failed

theorem requireFinite_eq_error {reason error : FormulaError} {value : Value}
    (failed : requireFinite reason value = .error error) : error = reason := by
  cases value with
  | text content => cases failed
  | number x =>
      by_cases finite : x.isFinite = true
      · simp [requireFinite, finite] at failed
      · simp only [requireFinite, finite] at failed
        exact (Except.error.inj failed).symm

theorem valueOf_eq_error {text : List Char} {error : FormulaError}
    (failed : valueOf text = .error error) :
    (∃ fault ∈ textFaults, error = .invalidExpression fault) ∨ error = .divisionByZero ∨
      ∃ tokens, Token.ofText text = .ok tokens ∧ error ∈ (ofTokens tokens).breaks := by
  unfold valueOf at failed
  split at failed
  · rename_i fault read
    exact .inl ⟨fault, mem_textFaults_of_ofText read, (Except.error.inj failed).symm⟩
  · exact .inl ⟨.emptyExpression, by simp [textFaults], (Except.error.inj failed).symm⟩
  · rename_i tokens _ read
    rcases Outcome.bind_eq_error.mp failed with failed | ⟨value, _, failed⟩
    · rcases eval_eq_error failed with broken | division | invalid
      · exact .inr (.inr ⟨tokens, read, broken⟩)
      · exact .inr (.inl division)
      · exact .inl ⟨.textInArithmetic, by simp [textFaults], invalid⟩
    · exact .inl ⟨.notFinite, by simp [textFaults], requireFinite_eq_error failed⟩

def errors : List FormulaError :=
  .divisionByZero :: (breakErrors ++ textFaults.map .invalidExpression)

theorem mem_errors_of_valueOf {text : List Char} {error : FormulaError}
    (failed : valueOf text = .error error) : error ∈ errors := by
  rcases valueOf_eq_error failed with ⟨fault, member, rfl⟩ | rfl | ⟨tokens, _, broken⟩
  · exact List.mem_cons_of_mem _ (List.mem_append_right _ (List.mem_map_of_mem member))
  · exact List.mem_cons_self
  · rcases (addsBreakErrors tokens).readOperand [] error broken with none | member
    · cases none
    · exact List.mem_cons_of_mem _ (List.mem_append_left _ member)

theorem isReading_of_valueOf {text : List Char} {error : FormulaError}
    (failed : valueOf text = .error error) :
    error = .divisionByZero ∨ error.isReading = true := by
  have all : ∀ error ∈ errors, error = .divisionByZero ∨ error.isReading = true := by decide
  exact all error (mem_errors_of_valueOf failed)

end Expression

end Worksheet
