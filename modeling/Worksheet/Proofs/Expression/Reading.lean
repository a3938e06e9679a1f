import Mathlib
import Worksheet.Expression.Parser

/-!
# Reading the tokens of an expression

An expression whose operands bind tightly enough for their places is read back from its tokens.
The reader keeps frames for what it has begun; closing a frame over the operand in it makes no
difference to what follows, as long as nothing follows that binds more tightly. So the tokens of a
whole expression act on the reader like one operand.
-/

set_option autoImplicit false

namespace Worksheet

theorem Operator.strength_pos (operator : Operator) : 0 < operator.strength := by
  cases operator <;> simp [strength]

namespace Expression

def signToken (negative : Bool) : Token :=
  .operator (if negative then .subtract else .add)

def tokens : Expression → List Token
  | number x => [.number x]
  | text content => [.text content]
  | sign negative operand => signToken negative :: operand.tokens
  | group inner => .opening :: (inner.tokens ++ [.closing])
  | binary operator left right => left.tokens ++ .operator operator :: right.tokens
  | missing _ => []
  | spoiled whole _ => whole.tokens

def strength : Expression → Nat
  | sign _ _ => 4
  | binary operator _ _ => operator.strength
  | _ => 5

/-- An expression without a break in which every operand binds tightly enough for its place: as
tightly as the operator behind it and more tightly than the one in front of it. Comparisons do not
chain. -/
def Proper : Expression → Prop
  | number _ => True
  | text _ => True
  | sign _ operand => 4 ≤ operand.strength ∧ operand.Proper
  | group inner => inner.Proper
  | binary operator left right =>
      max 2 operator.strength ≤ left.strength ∧ operator.strength < right.strength ∧
        left.Proper ∧ right.Proper
  | missing _ => False
  | spoiled _ _ => False

def nesting : Expression → Nat
  | sign _ operand => operand.nesting + 1
  | group inner => inner.nesting + 1
  | binary _ left right => max left.nesting right.nesting
  | _ => 0

theorem strength_pos (expression : Expression) : 0 < expression.strength := by
  cases expression with
  | binary operator left right => exact operator.strength_pos
  | _ => simp [strength]

/-- What follows an operand and closes every frame that binds at least this tightly: the end, a
closing parenthesis, or an operator that binds no more tightly. -/
def Closes (strength : Nat) : List Token → Prop
  | [] => True
  | .closing :: _ => True
  | .operator operator :: _ => max 2 operator.strength ≤ strength
  | _ => False

theorem Closes.mono {weak strong : Nat} (le : weak ≤ strong) {rest : List Token}
    (closes : Closes weak rest) : Closes strong rest := by
  cases rest with
  | nil => trivial
  | cons token rest =>
      cases token with
      | operator operator => exact Nat.le_trans closes le
      | closing => trivial
      | _ => exact closes

theorem settle_fill {strength : Nat} {frame : Frame} (closed : strength ≤ frame.strength)
    (frames : List Frame) (operand : Expression) :
    settle strength (frame :: frames) operand = settle strength frames (frame.fill operand) := by
  rw [settle, if_pos closed]

theorem settle_open {strength : Nat} {frames : List Frame}
    (opened : ∀ frame ∈ frames.head?, frame.strength < strength) (operand : Expression) :
    settle strength frames operand = (frames, operand) := by
  cases frames with
  | nil => rfl
  | cons frame frames =>
      have less := opened frame rfl
      rw [settle, if_neg (by omega)]

theorem readOperator_fill {frame : Frame} (binds : 0 < frame.strength) {rest : List Token}
    (closes : Closes frame.strength rest) (frames : List Frame) (operand : Expression) :
    readOperator (frame :: frames) operand rest =
      readOperator frames (frame.fill operand) rest := by
  cases rest with
  | nil => simp only [readOperator, finish, settle_fill (Nat.one_le_of_lt binds)]
  | cons token rest =>
      cases token with
      | operator operator =>
          have closed : max 2 operator.strength ≤ frame.strength := closes
          simp only [readOperator, settle_fill closed]
      | closing => simp only [readOperator, settle_fill (Nat.one_le_of_lt binds)]
      | number x => exact closes.elim
      | text content => exact closes.elim
      | opening => exact closes.elim

/-- An operator that binds more tightly than every open frame takes what stands before it as its
left operand. -/
theorem readOperator_loose {frames : List Frame} {operator : Operator}
    (loose : ∀ frame ∈ frames.head?, frame.strength < operator.strength) (left : Expression)
    (rest : List Token) :
    readOperator frames left (.operator operator :: rest) =
      readOperand (.binary left operator :: frames) rest := by
  have settled : settle (max 2 operator.strength) frames left = (frames, left) :=
    settle_open (fun frame member => Nat.lt_of_lt_of_le (loose frame member) (by omega)) left
  have notComparing : (operator.strength = 1 && isComparing frames) = false := by
    rcases Nat.eq_or_lt_of_le operator.strength_pos with one | more
    · rw [Bool.and_eq_false_imp]
      intro _
      cases frames with
      | nil => rfl
      | cons frame frames =>
          have less := loose frame rfl
          cases frame with
          | binary left other =>
              have positive := other.strength_pos
              rw [Frame.strength] at less
              omega
          | _ => rfl
    · have other : ¬ operator.strength = 1 := by omega
      simp [other]
  simp [readOperator, settled, notComparing]

theorem strength_lt_of_group (frames : List Frame) (inner : Expression) :
    ∀ frame ∈ (Frame.group :: frames).head?, frame.strength < inner.strength := by
  intro frame member
  obtain rfl : Frame.group = frame := Option.some.inj member
  exact strength_pos inner

theorem readOperator_closing (frames : List Frame) (inner : Expression) (rest : List Token) :
    readOperator (.group :: frames) inner (.closing :: rest) =
      readOperator frames (.group inner) rest := by
  have opened : settle 1 (.group :: frames) inner = (.group :: frames, inner) := rfl
  simp only [readOperator, opened]

theorem readOperand_opened {token : Token} {frame : Frame} (opened : openedBy? token = some frame)
    (frames : List Frame) (rest : List Token) :
    readOperand frames (token :: rest) =
      if frames.countP Frame.isNesting < groupLimit then readOperand (frame :: frames) rest
      else fillAll frames (.missing (.tooComplex groupLimit)) := by
  unfold openedBy? at opened
  split at opened <;> cases opened <;> simp only [readOperand, openedBy?]

theorem isNesting_of_openedBy? {token : Token} {frame : Frame}
    (opened : openedBy? token = some frame) : frame.isNesting = true := by
  unfold openedBy? at opened
  split at opened <;> cases opened <;> rfl

/-- What is read where an expression of some nesting goes over the limit: the frames around it and
those begun in it are closed over what is missing. -/
def IsCutOff (frames : List Frame) (nesting : Nat) (result : Expression) : Prop :=
  groupLimit < frames.countP Frame.isNesting + nesting ∧
    ∃ begun, (∀ left operator, .binary left operator ∈ begun → left.Proper) ∧
      result = fillAll (begun ++ frames) (.missing (.tooComplex groupLimit))

theorem IsCutOff.around {frame : Frame} {frames : List Frame} {within nesting : Nat}
    {result : Expression} (cut : IsCutOff (frame :: frames) within result)
    (proper : ∀ left operator, .binary left operator = frame → left.Proper)
    (deeper : [frame].countP Frame.isNesting + within ≤ nesting) :
    IsCutOff frames nesting result := by
  obtain ⟨deep, begun, begunProper, rfl⟩ := cut
  refine ⟨?_, begun ++ [frame], ?_, by rw [List.append_assoc, List.singleton_append]⟩
  · rw [← List.singleton_append, List.countP_append] at deep
    omega
  · intro left operator member
    rcases List.mem_append.mp member with inside | last
    · exact begunProper left operator inside
    · exact proper left operator (List.mem_singleton.mp last)

theorem readOperand_opened_or_cutOff {token : Token} {frame : Frame}
    (opened : openedBy? token = some frame) {frames : List Frame} {rest after : List Token}
    {whole : Expression} {within : Nat}
    (read : readOperand (frame :: frames) rest = readOperator frames whole after ∨
      IsCutOff (frame :: frames) within (readOperand (frame :: frames) rest)) :
    readOperand frames (token :: rest) = readOperator frames whole after ∨
      IsCutOff frames (within + 1) (readOperand frames (token :: rest)) := by
  have nests := isNesting_of_openedBy? opened
  rw [readOperand_opened opened]
  split
  · refine read.imp_right fun cut => cut.around ?_ ?_
    · rintro left operator rfl
      cases nests
    · rw [List.countP_cons_of_pos nests, List.countP_nil]
      omega
  · right
    refine ⟨by omega, [], ?_, rfl⟩
    intro left operator member
    cases member

/-- The tokens of an expression are read as one operand, if the frame around it and the tokens
behind it leave it whole, or they are cut off at the limit of nesting. -/
theorem readOperand_tokens_or_cutOff {expression : Expression} (proper : expression.Proper) :
    ∀ (frames : List Frame) (rest : List Token),
      (4 ≤ expression.strength ∨ ∀ frame ∈ frames.head?, frame.strength < expression.strength) →
      Closes expression.strength rest →
      readOperand frames (expression.tokens ++ rest) = readOperator frames expression rest ∨
        IsCutOff frames expression.nesting (readOperand frames (expression.tokens ++ rest)) := by
  induction expression with
  | number x =>
      intro frames rest _ _
      left
      rw [tokens, List.singleton_append, readOperand]
  | text content =>
      intro frames rest _ _
      left
      rw [tokens, List.singleton_append, readOperand]
  | sign negative operand ih =>
      intro frames rest _ closes
      obtain ⟨tight, proper⟩ := proper
      have opened : openedBy? (signToken negative) = some (.sign negative) := by
        cases negative <;> rfl
      have binds : 0 < (Frame.sign negative).strength := Nat.succ_pos 3
      have same : readOperator (.sign negative :: frames) operand rest =
          readOperator frames (.sign negative operand) rest :=
        readOperator_fill binds closes frames operand
      have inner := ih proper (.sign negative :: frames) rest (.inl tight) (closes.mono tight)
      rw [same] at inner
      rw [tokens, List.cons_append]
      exact readOperand_opened_or_cutOff opened inner
  | group inner ih =>
      intro frames rest _ _
      have read := ih proper (.group :: frames) (.closing :: rest)
        (.inr (strength_lt_of_group frames inner)) trivial
      rw [readOperator_closing] at read
      rw [tokens, List.cons_append, List.append_assoc, List.singleton_append]
      exact readOperand_opened_or_cutOff rfl read
  | binary operator left right ihLeft ihRight =>
      intro frames rest around closes
      obtain ⟨leftTight, rightTight, leftProper, rightProper⟩ := proper
      have loose : ∀ frame ∈ frames.head?, frame.strength < operator.strength := by
        rcases around with tight | around
        · cases operator <;> simp [strength, Operator.strength] at tight
        · exact around
      have leftRead := ihLeft leftProper frames (.operator operator :: (right.tokens ++ rest))
        (.inr fun frame member => by
          have less := loose frame member
          omega)
        leftTight
      have rightRead := ihRight rightProper (.binary left operator :: frames) rest
        (.inr fun frame member => by
          obtain rfl : Frame.binary left operator = frame := Option.some.inj member
          exact rightTight)
        (closes.mono (Nat.le_of_lt rightTight))
      have binds : 0 < (Frame.binary left operator).strength := operator.strength_pos
      have same : readOperator (.binary left operator :: frames) right rest =
          readOperator frames (.binary operator left right) rest :=
        readOperator_fill binds closes frames right
      rw [same] at rightRead
      rw [tokens, List.append_assoc, List.cons_append]
      -- What is cut off in the left operand never gets to the operator.
      rcases leftRead with leftRead | ⟨deep, cut⟩
      · rw [leftRead, readOperator_loose loose]
        refine rightRead.imp_right fun cut => cut.around ?_ ?_
        · intro other sign same
          cases same
          exact leftProper
        · rw [List.countP_cons_of_neg (by simp [Frame.isNesting]), List.countP_nil, Nat.zero_add]
          exact Nat.le_max_right _ _
      · exact .inr ⟨Nat.lt_of_lt_of_le deep (Nat.add_le_add_left (Nat.le_max_left _ _) _), cut⟩
  | missing error => exact proper.elim
  | spoiled whole error _ => exact proper.elim

theorem readOperand_group_or_cutOff {inner : Expression} (proper : inner.Proper)
    (frames : List Frame) (rest : List Token) :
    readOperand frames (.opening :: (inner.tokens ++ .closing :: rest)) =
        readOperator frames (.group inner) rest ∨
      IsCutOff frames (inner.nesting + 1)
        (readOperand frames (.opening :: (inner.tokens ++ .closing :: rest))) := by
  have read := readOperand_tokens_or_cutOff proper (.group :: frames) (.closing :: rest)
    (.inr (strength_lt_of_group frames inner)) trivial
  rw [readOperator_closing] at read
  exact readOperand_opened_or_cutOff rfl read

theorem ofTokens_tokens {expression : Expression} (proper : expression.Proper)
    (shallow : expression.nesting ≤ groupLimit) :
    ofTokens expression.tokens = expression := by
  rw [ofTokens, ← List.append_nil expression.tokens]
  rcases readOperand_tokens_or_cutOff proper [] [] (.inr (by simp)) trivial with read | ⟨deep, -⟩
  · exact read
  · rw [List.countP_nil] at deep
    omega

end Expression

end Worksheet
