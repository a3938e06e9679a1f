import Mathlib
import Worksheet.Proofs.Expression.Breaks
import Worksheet.Proofs.Expression.Clash

/-!
# The grammar of expressions

The grammar has one level for each strength of an operator. `Expression.Parses` is its parse trees:
chains of sums and of products lean to the left, and a comparison joins two sums. The parse trees
of a level are the proper expressions that hold together at least as tightly as the level asks.

The reader finds a parse tree wherever there is one. Whatever it reads fails or is a parse tree of
all the tokens: the frames it keeps are the part of a parse tree that stands to the left of the
next token.
-/

set_option autoImplicit false

namespace Worksheet

inductive Level where
  | comparison
  | addition
  | multiplication
  | unary
  | primary
deriving DecidableEq, Repr

namespace Level

def strength : Level → Nat
  | comparison => 1
  | addition => 2
  | multiplication => 3
  | unary => 4
  | primary => 5

def looser : Level → Level
  | primary => unary
  | unary => multiplication
  | multiplication => addition
  | addition => comparison
  | comparison => comparison

theorem iterate_looser {tight loose : Level} (le : loose.strength ≤ tight.strength) :
    looser^[tight.strength - loose.strength] tight = loose := by
  revert le
  cases tight <;> cases loose <;> decide

end Level

namespace Expression

/-- The tokens have this parse tree on this level of the grammar. -/
inductive Parses : Level → List Token → Expression → Prop
  | number (x : Float) : Parses .primary [.number x] (number x)
  | text (content : List Char) : Parses .primary [.text content] (text content)
  | group {tokens : List Token} {inner : Expression} (parses : Parses .comparison tokens inner) :
      Parses .primary (.opening :: (tokens ++ [.closing])) (group inner)
  | primary {tokens : List Token} {tree : Expression} (parses : Parses .primary tokens tree) :
      Parses .unary tokens tree
  | plus {tokens : List Token} {operand : Expression} (parses : Parses .unary tokens operand) :
      Parses .unary (.operator .add :: tokens) (sign false operand)
  | minus {tokens : List Token} {operand : Expression} (parses : Parses .unary tokens operand) :
      Parses .unary (.operator .subtract :: tokens) (sign true operand)
  | unary {tokens : List Token} {tree : Expression} (parses : Parses .unary tokens tree) :
      Parses .multiplication tokens tree
  | product {front back : List Token} {left right : Expression}
      (leftParses : Parses .multiplication front left) (rightParses : Parses .unary back right) :
      Parses .multiplication (front ++ .operator .multiply :: back) (binary .multiply left right)
  | quotient {front back : List Token} {left right : Expression}
      (leftParses : Parses .multiplication front left) (rightParses : Parses .unary back right) :
      Parses .multiplication (front ++ .operator .divide :: back) (binary .divide left right)
  | multiplication {tokens : List Token} {tree : Expression}
      (parses : Parses .multiplication tokens tree) : Parses .addition tokens tree
  | sum {front back : List Token} {left right : Expression}
      (leftParses : Parses .addition front left)
      (rightParses : Parses .multiplication back right) :
      Parses .addition (front ++ .operator .add :: back) (binary .add left right)
  | difference {front back : List Token} {left right : Expression}
      (leftParses : Parses .addition front left)
      (rightParses : Parses .multiplication back right) :
      Parses .addition (front ++ .operator .subtract :: back) (binary .subtract left right)
  | addition {tokens : List Token} {tree : Expression} (parses : Parses .addition tokens tree) :
      Parses .comparison tokens tree
  | comparison {front back : List Token} {left right : Expression} (relation : Relation)
      (leftParses : Parses .addition front left) (rightParses : Parses .addition back right) :
      Parses .comparison (front ++ .operator (.compare relation) :: back)
        (binary (.compare relation) left right)

theorem Parses.looser {level : Level} {tokens : List Token} {tree : Expression}
    (parses : Parses level tokens tree) : Parses level.looser tokens tree := by
  cases level with
  | primary => exact parses.primary
  | unary => exact parses.unary
  | multiplication => exact parses.multiplication
  | addition => exact parses.addition
  | comparison => exact parses

theorem Parses.loosen {tight loose : Level} {tokens : List Token} {tree : Expression}
    (parses : Parses tight tokens tree) (le : loose.strength ≤ tight.strength) :
    Parses loose tokens tree := by
  rw [← Level.iterate_looser le]
  generalize tight.strength - loose.strength = steps
  induction steps with
  | zero => exact parses
  | succ steps ih =>
      rw [Function.iterate_succ_apply']
      exact ih.looser

theorem parses_iff {level : Level} {tokens : List Token} {tree : Expression} :
    Parses level tokens tree ↔
      tree.Proper ∧ tree.tokens = tokens ∧ level.strength ≤ tree.strength := by
  constructor
  · intro parses
    induction parses with
    | number x => exact ⟨trivial, rfl, Nat.le_refl _⟩
    | text content => exact ⟨trivial, rfl, Nat.le_refl _⟩
    | group _ ih =>
        obtain ⟨proper, rfl, _⟩ := ih
        exact ⟨proper, rfl, Nat.le_refl _⟩
    | plus _ ih | minus _ ih =>
        obtain ⟨proper, rfl, tight⟩ := ih
        exact ⟨⟨tight, proper⟩, rfl, Nat.le_refl _⟩
    | primary _ ih | unary _ ih | multiplication _ ih | addition _ ih =>
        obtain ⟨proper, same, tight⟩ := ih
        exact ⟨proper, same, Nat.le_of_succ_le tight⟩
    | product _ _ ihLeft ihRight | quotient _ _ ihLeft ihRight | sum _ _ ihLeft ihRight
    | difference _ _ ihLeft ihRight | comparison _ _ _ ihLeft ihRight =>
        obtain ⟨leftProper, rfl, leftTight⟩ := ihLeft
        obtain ⟨rightProper, rfl, rightTight⟩ := ihRight
        exact ⟨⟨leftTight, rightTight, leftProper, rightProper⟩, rfl, Nat.le_refl _⟩
  · rintro ⟨proper, rfl, tight⟩
    induction tree generalizing level with
    | number x => exact (Parses.number x).loosen tight
    | text content => exact (Parses.text content).loosen tight
    | sign negative operand ih =>
        have inner : Parses .unary operand.tokens operand := ih proper.2 proper.1
        cases negative with
        | false => exact inner.plus.loosen tight
        | true => exact inner.minus.loosen tight
    | group inner ih =>
        have whole : Parses .comparison inner.tokens inner := ih proper (strength_pos inner)
        exact whole.group.loosen tight
    | binary operator left right ihLeft ihRight =>
        obtain ⟨leftTight, rightTight, leftProper, rightProper⟩ := proper
        have leftParses {below : Level} := @ihLeft below leftProper
        have rightParses {below : Level} := @ihRight below rightProper
        cases operator with
        | add => exact (Parses.sum (leftParses leftTight) (rightParses rightTight)).loosen tight
        | subtract =>
            exact (Parses.difference (leftParses leftTight) (rightParses rightTight)).loosen tight
        | multiply =>
            exact (Parses.product (leftParses leftTight) (rightParses rightTight)).loosen tight
        | divide =>
            exact (Parses.quotient (leftParses leftTight) (rightParses rightTight)).loosen tight
        | compare relation =>
            exact (Parses.comparison relation (leftParses leftTight)
              (rightParses rightTight)).loosen tight
    | missing error => exact proper.elim
    | spoiled whole error _ => exact proper.elim

end Expression

/-! ## Values of parse trees -/

theorem Relation.holds_numberAndText (relation : Relation) (a : Float) (b : List Char) :
    relation.holds (.number a) (.text b) = decide (relation = .notEqual) := by
  cases relation <;> rfl

theorem Relation.holds_textAndNumber (relation : Relation) (a : List Char) (b : Float) :
    relation.holds (.text a) (.number b) = decide (relation = .notEqual) := by
  cases relation <;> rfl

namespace Expression

/-- A parse tree has this value. Arithmetic takes a text for the number that it spells; where it
spells none, or the divisor is zero, there is no value. -/
inductive HasValue : Expression → Value → Prop
  | number (x : Float) : HasValue (number x) (.number x)
  | text (content : List Char) : HasValue (text content) (.text content)
  | group {inner : Expression} {value : Value} (inside : HasValue inner value) :
      HasValue (group inner) value
  | plus {operand : Expression} {value : Value} {x : Float} (inside : HasValue operand value)
      (numeric : value.number? = some x) : HasValue (sign false operand) (.number x)
  | minus {operand : Expression} {value : Value} {x : Float} (inside : HasValue operand value)
      (numeric : value.number? = some x) : HasValue (sign true operand) (.number (-x))
  | add {left right : Expression} {first second : Value} {a b : Float}
      (leftValue : HasValue left first) (rightValue : HasValue right second)
      (leftNumeric : first.number? = some a) (rightNumeric : second.number? = some b) :
      HasValue (binary .add left right) (.number (a + b))
  | subtract {left right : Expression} {first second : Value} {a b : Float}
      (leftValue : HasValue left first) (rightValue : HasValue right second)
      (leftNumeric : first.number? = some a) (rightNumeric : second.number? = some b) :
      HasValue (binary .subtract left right) (.number (a - b))
  | multiply {left right : Expression} {first second : Value} {a b : Float}
      (leftValue : HasValue left first) (rightValue : HasValue right second)
      (leftNumeric : first.number? = some a) (rightNumeric : second.number? = some b) :
      HasValue (binary .multiply left right) (.number (a * b))
  | divide {left right : Expression} {first second : Value} {a b : Float}
      (leftValue : HasValue left first) (rightValue : HasValue right second)
      (leftNumeric : first.number? = some a) (rightNumeric : second.number? = some b)
      (nonzero : (b == 0.0) = false) : HasValue (binary .divide left right) (.number (a / b))
  | numbers (relation : Relation) {left right : Expression} {a b : Float}
      (leftValue : HasValue left (.number a)) (rightValue : HasValue right (.number b)) :
      HasValue (binary (.compare relation) left right)
        (.number (if relation.holds (.number a) (.number b) then 1.0 else 0.0))
  | texts (relation : Relation) {left right : Expression} {a b : List Char}
      (leftValue : HasValue left (.text a)) (rightValue : HasValue right (.text b)) :
      HasValue (binary (.compare relation) left right)
        (.number (if relation.holds (.text a) (.text b) then 1.0 else 0.0))
  | numberAndText (relation : Relation) {left right : Expression} {a : Float} {b : List Char}
      (leftValue : HasValue left (.number a)) (rightValue : HasValue right (.text b)) :
      HasValue (binary (.compare relation) left right)
        (.number (if relation = .notEqual then 1.0 else 0.0))
  | textAndNumber (relation : Relation) {left right : Expression} {a : List Char} {b : Float}
      (leftValue : HasValue left (.text a)) (rightValue : HasValue right (.number b)) :
      HasValue (binary (.compare relation) left right)
        (.number (if relation = .notEqual then 1.0 else 0.0))

theorem toOperand_eq_ok {value : Value} {x : Float} :
    value.toOperand = .ok x ↔ value.number? = some x := by
  cases value with
  | number y => simp [Value.toOperand, Value.number?]
  | text content =>
      simp only [Value.toOperand, Value.number?]
      cases plainNumber? content <;> simp

theorem apply_eq_ok {operator : Operator} (arithmetic : operator.strength ≠ 1)
    {left right result : Value} :
    operator.apply left right = .ok result ↔
      ∃ a b, left.number? = some a ∧ right.number? = some b ∧
        ∃ x, operator.compute a b = .ok x ∧ .number x = result := by
  have unfolded : operator.apply left right = (do
      let b ← right.toOperand
      let a ← left.toOperand
      return .number (← operator.compute a b)) := by
    cases operator with
    | compare relation => exact absurd rfl arithmetic
    | _ => rfl
  rw [unfolded]
  constructor
  · intro succeeded
    obtain ⟨b, rightNumeric, succeeded⟩ := Outcome.bind_eq_ok.mp succeeded
    obtain ⟨a, leftNumeric, succeeded⟩ := Outcome.bind_eq_ok.mp succeeded
    obtain ⟨x, computed, same⟩ := Outcome.bind_eq_ok.mp succeeded
    exact ⟨a, b, toOperand_eq_ok.mp leftNumeric, toOperand_eq_ok.mp rightNumeric, x, computed,
      Except.ok.inj same⟩
  · rintro ⟨a, b, leftNumeric, rightNumeric, x, computed, rfl⟩
    rw [toOperand_eq_ok.mpr leftNumeric, toOperand_eq_ok.mpr rightNumeric]
    simp only [Outcome.ok_bind, computed, Outcome.pure_eq]

theorem eval_binary {operator : Operator} {left right : Expression} {first second : Value}
    (leftRead : left.eval = .ok first) (rightRead : right.eval = .ok second) :
    (binary operator left right).eval = operator.apply first second := by
  simp only [eval, leftRead, rightRead, Outcome.ok_bind]

theorem HasValue.eval_eq_ok {tree : Expression} {value : Value} (hasValue : tree.HasValue value) :
    tree.eval = .ok value := by
  induction hasValue with
  | number x => rfl
  | text content => rfl
  | group _ ih => exact ih
  | plus _ numeric ih | minus _ numeric ih =>
      simp [eval, ih, toOperand_eq_ok.mpr numeric]
  | add _ _ leftNumeric rightNumeric ihLeft ihRight
  | subtract _ _ leftNumeric rightNumeric ihLeft ihRight
  | multiply _ _ leftNumeric rightNumeric ihLeft ihRight =>
      rw [eval_binary ihLeft ihRight, apply_eq_ok (by decide)]
      exact ⟨_, _, leftNumeric, rightNumeric, _, rfl, rfl⟩
  | divide _ _ leftNumeric rightNumeric nonzero ihLeft ihRight =>
      rw [eval_binary ihLeft ihRight, apply_eq_ok (by decide)]
      exact ⟨_, _, leftNumeric, rightNumeric, _, by simp [Operator.compute, nonzero], rfl⟩
  | numbers relation _ _ ihLeft ihRight | texts relation _ _ ihLeft ihRight =>
      exact eval_binary ihLeft ihRight
  | numberAndText relation _ _ ihLeft ihRight | textAndNumber relation _ _ ihLeft ihRight =>
      rw [eval_binary ihLeft ihRight, Operator.apply]
      simp only [Relation.holds_numberAndText, Relation.holds_textAndNumber, decide_eq_true_eq]

section Binary

variable {left right : Expression} {first second result : Value}
  (leftValue : HasValue left first) (rightValue : HasValue right second)
include leftValue rightValue

theorem hasValue_of_compute {operator : Operator} (arithmetic : operator.strength ≠ 1) {a b x : Float}
    (leftNumeric : first.number? = some a) (rightNumeric : second.number? = some b)
    (computed : operator.compute a b = .ok x) : HasValue (binary operator left right) (.number x) := by
  cases operator with
  | add =>
      obtain rfl := Except.ok.inj computed
      exact .add leftValue rightValue leftNumeric rightNumeric
  | subtract =>
      obtain rfl := Except.ok.inj computed
      exact .subtract leftValue rightValue leftNumeric rightNumeric
  | multiply =>
      obtain rfl := Except.ok.inj computed
      exact .multiply leftValue rightValue leftNumeric rightNumeric
  | divide =>
      cases zero : b == 0.0 with
      | true => simp [Operator.compute, zero] at computed
      | false =>
          simp only [Operator.compute, zero, Bool.false_eq_true, if_false, Except.ok.injEq]
            at computed
          subst computed
          exact .divide leftValue rightValue leftNumeric rightNumeric zero
  | compare relation => exact absurd rfl arithmetic

theorem hasValue_of_holds (relation : Relation) :
    HasValue (binary (.compare relation) left right)
      (.number (if relation.holds first second then 1.0 else 0.0)) := by
  cases first with
  | number a =>
      cases second with
      | number b => exact .numbers relation leftValue rightValue
      | text b =>
          simp only [Relation.holds_numberAndText, decide_eq_true_eq]
          exact .numberAndText relation leftValue rightValue
  | text a =>
      cases second with
      | number b =>
          simp only [Relation.holds_textAndNumber, decide_eq_true_eq]
          exact .textAndNumber relation leftValue rightValue
      | text b => exact .texts relation leftValue rightValue

theorem hasValue_of_apply {operator : Operator} (applied : operator.apply first second = .ok result) :
    HasValue (binary operator left right) result := by
  by_cases arithmetic : operator.strength ≠ 1
  · obtain ⟨a, b, leftNumeric, rightNumeric, x, computed, rfl⟩ := (apply_eq_ok arithmetic).mp applied
    exact hasValue_of_compute leftValue rightValue arithmetic leftNumeric rightNumeric computed
  · obtain ⟨relation, rfl⟩ : ∃ relation, operator = .compare relation := by
      cases operator with
      | compare relation => exact ⟨relation, rfl⟩
      | _ => exact absurd (by decide) arithmetic
    obtain rfl := Except.ok.inj applied
    exact hasValue_of_holds leftValue rightValue relation

end Binary

theorem hasValue_of_eval {tree : Expression} {value : Value} (evaluated : tree.eval = .ok value) :
    tree.HasValue value := by
  induction tree generalizing value with
  | number x =>
      obtain rfl := Except.ok.inj evaluated
      exact .number x
  | text content =>
      obtain rfl := Except.ok.inj evaluated
      exact .text content
  | sign negative operand ih =>
      obtain ⟨inside, read, evaluated⟩ := Outcome.bind_eq_ok.mp evaluated
      obtain ⟨x, numeric, same⟩ := Outcome.bind_eq_ok.mp evaluated
      obtain rfl := Except.ok.inj same
      cases negative with
      | false => exact .plus (ih read) (toOperand_eq_ok.mp numeric)
      | true => exact .minus (ih read) (toOperand_eq_ok.mp numeric)
  | group inner ih => exact .group (ih evaluated)
  | binary operator left right ihLeft ihRight =>
      obtain ⟨first, leftRead, evaluated⟩ := Outcome.bind_eq_ok.mp evaluated
      obtain ⟨second, rightRead, applied⟩ := Outcome.bind_eq_ok.mp evaluated
      exact hasValue_of_apply (ihLeft leftRead) (ihRight rightRead) applied
  | missing error => cases evaluated
  | spoiled whole error _ =>
      obtain ⟨_, failed⟩ := fails_spoiled whole error
      rw [failed] at evaluated
      cases evaluated

theorem hasValue_iff {tree : Expression} {value : Value} :
    tree.HasValue value ↔ tree.eval = .ok value :=
  ⟨HasValue.eval_eq_ok, hasValue_of_eval⟩

end Expression

/-! ## What the frames stand for -/

namespace Frame

def tokens : Frame → List Token
  | sign negative => [Expression.signToken negative]
  | binary left operator => left.tokens ++ [.operator operator]
  | group => [.opening]

/-- Tells whether an operand binds tightly enough for its place in a frame. -/
def Admits : Frame → Expression → Prop
  | sign _, operand => 4 ≤ operand.strength
  | binary _ operator, operand => operator.strength < operand.strength
  | group, _ => True

theorem admits_of_atom (frame : Frame) {operand : Expression} (tight : operand.strength = 5) :
    frame.Admits operand := by
  cases frame with
  | sign negative => simp [Admits, tight]
  | binary left operator => cases operator <;> simp [Admits, tight, Operator.strength]
  | group => trivial

end Frame

namespace Expression

def front : List Frame → List Token
  | [] => []
  | frame :: outer => front outer ++ frame.tokens

/-- An expression may be the operand of the frames around it. -/
structure Fits (frames : List Frame) (operand : Expression) : Prop where
  proper : operand.Proper
  admitted : ∀ frame ∈ frames.head?, frame.Admits operand
  shallow : frames.countP Frame.isNesting + operand.nesting ≤ groupLimit

/-- What the reader has begun is the left part of an expression. A frame of an operator binds more
tightly than the frame around it, and its left operand is tight enough for it. -/
def Standing : List Frame → Prop
  | [] => True
  | .binary left operator :: outer =>
      (∀ frame ∈ outer.head?, frame.strength < operator.strength) ∧
        max 2 operator.strength ≤ left.strength ∧ Fits outer left ∧ Standing outer
  | _ :: outer => outer.countP Frame.isNesting < groupLimit ∧ Standing outer

theorem Standing.tail {frame : Frame} {outer : List Frame} (standing : Standing (frame :: outer)) :
    Standing outer := by
  cases frame with
  | binary left operator => exact standing.2.2.2
  | _ => exact standing.2

theorem countP_le_of_standing {frames : List Frame} (standing : Standing frames) :
    frames.countP Frame.isNesting ≤ groupLimit := by
  cases frames with
  | nil => exact Nat.zero_le _
  | cons frame outer =>
      cases frame with
      | binary left operator =>
          have shallow := standing.2.2.1.shallow
          rw [List.countP_cons_of_neg (by simp [Frame.isNesting])]
          omega
      | _ =>
          rw [List.countP_cons_of_pos rfl]
          exact standing.1

theorem fits_of_atom {frames : List Frame} (standing : Standing frames) {operand : Expression}
    (proper : operand.Proper) (tight : operand.strength = 5) (flat : operand.nesting = 0) :
    Fits frames operand := by
  refine ⟨proper, fun frame _ => frame.admits_of_atom tight, ?_⟩
  rw [flat]
  exact countP_le_of_standing standing

/-- Once a sign or an operator has its last operand, it is an operand of the next frame. -/
theorem Fits.fill {frame : Frame} {outer : List Frame} {operand : Expression}
    (standing : Standing (frame :: outer)) (fits : Fits (frame :: outer) operand)
    (notGroup : frame ≠ .group) :
    Fits outer (frame.fill operand) ∧ (frame.fill operand).strength = frame.strength ∧
      front outer ++ (frame.fill operand).tokens = front (frame :: outer) ++ operand.tokens := by
  have admitted := fits.admitted frame rfl
  have shallow := fits.shallow
  cases frame with
  | group => exact absurd rfl notGroup
  | sign negative =>
      refine ⟨⟨⟨admitted, fits.proper⟩, fun next member => ?_, ?_⟩, rfl, ?_⟩
      · cases next with
        | sign other => exact Nat.le_refl _
        | binary left operator =>
            cases operator <;> simp [Frame.Admits, Frame.fill, strength, Operator.strength]
        | group => trivial
      · rw [List.countP_cons_of_pos rfl] at shallow
        simp only [Frame.fill, nesting]
        omega
      · simp [front, Frame.tokens, Frame.fill, tokens]
  | binary left operator =>
      obtain ⟨loose, leftTight, leftFits, _⟩ := standing
      refine ⟨⟨⟨leftTight, admitted, leftFits.proper, fits.proper⟩, fun next member => ?_, ?_⟩,
        rfl, ?_⟩
      · have less := loose next member
        cases next with
        | sign other =>
            exfalso
            cases operator <;> simp [Frame.strength, Operator.strength] at less
        | binary other inner => exact less
        | group => trivial
      · have leftShallow := leftFits.shallow
        rw [List.countP_cons_of_neg (by simp [Frame.isNesting])] at shallow
        simp only [Frame.fill, nesting]
        omega
      · simp [front, Frame.tokens, Frame.fill, tokens]

theorem settle_standing {bound : Nat} (positive : 0 < bound) {frames outer : List Frame}
    {operand whole : Expression} (standing : Standing frames) (fits : Fits frames operand)
    (tight : bound ≤ operand.strength) (settled : settle bound frames operand = (outer, whole)) :
    Standing outer ∧ Fits outer whole ∧ bound ≤ whole.strength ∧
      (∀ frame ∈ outer.head?, frame.strength < bound) ∧
      front outer ++ whole.tokens = front frames ++ operand.tokens := by
  induction frames generalizing operand with
  | nil =>
      obtain ⟨rfl, rfl⟩ := Prod.mk.inj settled
      exact ⟨standing, fits, tight, by simp, rfl⟩
  | cons frame frames ih =>
      unfold settle at settled
      split at settled
      · rename_i closed
        have notGroup : frame ≠ .group := by
          rintro rfl
          rw [Frame.strength] at closed
          omega
        obtain ⟨filled, same, spelled⟩ := fits.fill standing notGroup
        rw [← spelled]
        exact ih standing.tail filled (same ▸ closed) settled
      · rename_i opened
        obtain ⟨rfl, rfl⟩ := Prod.mk.inj settled
        exact ⟨standing, fits, tight, by simpa using opened, rfl⟩

/-! ## What the reader reads -/

structure Spells (expression : Expression) (tokens : List Token) : Prop where
  proper : expression.Proper
  spelled : expression.tokens = tokens
  shallow : expression.nesting ≤ groupLimit

theorem tokens_of_openedBy? {token : Token} {frame : Frame}
    (opened : openedBy? token = some frame) : frame.tokens = [token] := by
  unfold openedBy? at opened
  split at opened <;> cases opened <;> rfl

theorem standing_of_openedBy? {token : Token} {frame : Frame}
    (opened : openedBy? token = some frame) {frames : List Frame} (standing : Standing frames)
    (room : frames.countP Frame.isNesting < groupLimit) : Standing (frame :: frames) := by
  unfold openedBy? at opened
  split at opened <;> cases opened <;> exact ⟨room, standing⟩

theorem finish_fails_or_spells {frames : List Frame} {operand : Expression}
    (standing : Standing frames) (fits : Fits frames operand) :
    (finish frames operand).Fails ∨
      (finish frames operand).Spells (front frames ++ operand.tokens) := by
  unfold finish
  split
  · rename_i whole settled
    obtain ⟨_, wholeFits, _, _, same⟩ :=
      settle_standing Nat.one_pos standing fits (strength_pos operand) settled
    have shallow := wholeFits.shallow
    exact .inr ⟨wholeFits.proper, by simpa [front] using same, by simpa using shallow⟩
  · exact .inl ((fails_spoiled _ _).fillAll _)

/-- Behind an operand that closes the tighter frames, an operator binds more tightly than the frame
that is left open, unless it chains a comparison. -/
theorem looser_of_not_chained {operator : Operator} {outer : List Frame}
    (loose : ∀ frame ∈ outer.head?, frame.strength < max 2 operator.strength)
    (notChained : operator.strength = 1 → isComparing outer = false) :
    ∀ frame ∈ outer.head?, frame.strength < operator.strength := by
  intro frame member
  have less := loose frame member
  by_cases comparing : operator.strength = 1
  · obtain ⟨more, rfl⟩ := List.head?_eq_some_iff.mp member
    have unchained := notChained comparing
    rw [comparing] at less
    cases frame with
    | group => exact operator.strength_pos
    | sign negative =>
        exfalso
        rw [Frame.strength] at less
        omega
    | binary left inner =>
        exfalso
        cases inner with
        | compare relation => cases unchained
        | _ => simp [Frame.strength, Operator.strength] at less
  · have positive := operator.strength_pos
    omega

theorem open_fails_or_stands {token : Token} {frame : Frame} (opened : openedBy? token = some frame)
    {frames : List Frame} (standing : Standing frames) (rest : List Token) :
    (readOperand frames (token :: rest)).Fails ∨
      readOperand frames (token :: rest) = readOperand (frame :: frames) rest ∧
        Standing (frame :: frames) ∧ front (frame :: frames) = front frames ++ [token] := by
  rw [readOperand_opened opened]
  split
  · rename_i room
    refine .inr ⟨rfl, standing_of_openedBy? opened standing room, ?_⟩
    rw [front, tokens_of_openedBy? opened]
  · exact .inl ((fails_missing _).fillAll frames)

theorem close_fails_or_stands {frames : List Frame} {operand : Expression}
    (standing : Standing frames) (fits : Fits frames operand) (rest : List Token) :
    (readOperator frames operand (.closing :: rest)).Fails ∨
      ∃ outer whole,
        readOperator frames operand (.closing :: rest) = readOperator outer (.group whole) rest ∧
          Standing outer ∧ Fits outer (.group whole) ∧
          front outer ++ (group whole).tokens = front frames ++ operand.tokens ++ [.closing] := by
  rw [readOperator]
  split
  · exact .inl (fails_spoiled _ _)
  · rename_i frame outer whole settled
    obtain rfl := head_of_settle_one settled
    obtain ⟨opened, wholeFits, _, _, same⟩ :=
      settle_standing Nat.one_pos standing fits (strength_pos operand) settled
    have shallow := wholeFits.shallow
    rw [List.countP_cons_of_pos rfl] at shallow
    have groupFits : Fits outer (.group whole) := by
      refine ⟨wholeFits.proper, fun frame _ => frame.admits_of_atom rfl, ?_⟩
      rw [nesting]
      omega
    refine .inr ⟨outer, whole, rfl, opened.tail, groupFits, ?_⟩
    rw [← same]
    simp [front, Frame.tokens, tokens]

theorem operator_fails_or_stands (operator : Operator) {frames : List Frame} {operand : Expression}
    (standing : Standing frames) (fits : Fits frames operand) (tight : operand.strength = 5)
    (rest : List Token) :
    (readOperator frames operand (.operator operator :: rest)).Fails ∨
      ∃ left outer,
        readOperator frames operand (.operator operator :: rest) =
            readOperand (.binary left operator :: outer) rest ∧
          Standing (.binary left operator :: outer) ∧
          front (.binary left operator :: outer) =
            front frames ++ operand.tokens ++ [.operator operator] := by
  rw [readOperator]
  split
  rename_i outer left settled
  split
  · exact .inl (fails_interrupt _ _)
  · rename_i notChained
    have bound : max 2 operator.strength ≤ operand.strength := by
      rw [tight]
      cases operator <;> simp [Operator.strength]
    obtain ⟨outerStanding, leftFits, leftTight, loose, same⟩ :=
      settle_standing (by omega) standing fits bound settled
    have looser : ∀ frame ∈ outer.head?, frame.strength < operator.strength :=
      looser_of_not_chained loose (by simpa using notChained)
    refine .inr ⟨left, outer, rfl, ⟨looser, leftTight, leftFits, outerStanding⟩, ?_⟩
    rw [← same]
    simp [front, Frame.tokens]

/-- Whatever the reader reads fails, or it is a parse tree of what the frames stand for and of the
tokens that were left. -/
theorem fails_or_spells (tokens : List Token) :
    (∀ frames, Standing frames →
        (readOperand frames tokens).Fails ∨
          (readOperand frames tokens).Spells (front frames ++ tokens)) ∧
      ∀ frames operand, Standing frames → Fits frames operand → operand.strength = 5 →
        (readOperator frames operand tokens).Fails ∨
          (readOperator frames operand tokens).Spells
            (front frames ++ operand.tokens ++ tokens) := by
  -- a token that is read goes from the tokens that are left to those the frames stand for
  induction tokens with
  | nil =>
      constructor
      · intro frames _
        rw [readOperand]
        exact .inl ((fails_missing _).fillAll frames)
      · intro frames operand standing fits _
        rw [readOperator, List.append_nil]
        exact finish_fails_or_spells standing fits
  | cons token rest ih =>
      obtain ⟨onOperand, onOperator⟩ := ih
      constructor
      · intro frames standing
        have onAtom (operand : Expression) (proper : operand.Proper) (tight : operand.strength = 5)
            (flat : operand.nesting = 0) :=
          onOperator frames operand standing (fits_of_atom standing proper tight flat) tight
        cases opened : openedBy? token with
        | some frame =>
            rcases open_fails_or_stands opened standing rest with fails | ⟨read, opens, same⟩
            · exact .inl fails
            · have later := onOperand _ opens
              rwa [same, ← read, List.append_assoc] at later
        | none =>
            cases token with
            | number x =>
                have read := onAtom (.number x) trivial rfl rfl
                rwa [List.append_assoc] at read
            | text content =>
                have read := onAtom (.text content) trivial rfl rfl
                rwa [List.append_assoc] at read
            | opening => cases opened
            | closing =>
                simp only [readOperand, openedBy?]
                exact .inl ((fails_missing _).fillAll frames)
            | operator operator =>
                cases operator with
                | add | subtract => cases opened
                | _ =>
                    simp only [readOperand, openedBy?]
                    exact .inl ((fails_missing _).fillAll frames)
      · intro frames operand standing fits tight
        cases token with
        | number x | text content | opening =>
            exact .inl (fails_of_startsOperand rfl frames operand rest)
        | closing =>
            rcases close_fails_or_stands standing fits rest with
              fails | ⟨outer, whole, read, outerStanding, groupFits, same⟩
            · exact .inl fails
            · have later := onOperator outer (.group whole) outerStanding groupFits rfl
              rwa [same, ← read, List.append_assoc] at later
        | operator operator =>
            rcases operator_fails_or_stands operator standing fits tight rest with
              fails | ⟨left, outer, read, opens, same⟩
            · exact .inl fails
            · have later := onOperand _ opens
              rwa [same, ← read, List.append_assoc] at later

theorem ofTokens_fails_or_parses (tokens : List Token) :
    (ofTokens tokens).Fails ∨
      Parses .comparison tokens (ofTokens tokens) ∧ (ofTokens tokens).nesting ≤ groupLimit := by
  rcases (fails_or_spells tokens).1 [] trivial with fails | spells
  · exact .inl fails
  · exact .inr ⟨parses_iff.mpr ⟨spells.proper, spells.spelled, strength_pos _⟩, spells.shallow⟩

theorem ofTokens_of_parses {tokens : List Token} {tree : Expression}
    (parses : Parses .comparison tokens tree) (shallow : tree.nesting ≤ groupLimit) :
    ofTokens tokens = tree := by
  obtain ⟨proper, rfl, _⟩ := parses_iff.mp parses
  exact ofTokens_tokens proper shallow

end Expression

end Worksheet
