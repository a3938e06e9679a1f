import Mathlib
import Worksheet.Proofs.Expression.Breaks
import Worksheet.Proofs.Expression.Lexing
import Worksheet.Proofs.Script.Name

/-!
# Parentheses among the tokens of an expression

The parentheses of a text that passes the check match among its tokens as well. The reader of such
tokens blames the parentheses for one reason only: what stands in a group is no expression.
-/

set_option autoImplicit false

namespace Worksheet

namespace Token

def isBalanced (depth : Nat) : List Token → Bool
  | [] => depth == 0
  | opening :: rest => isBalanced (depth + 1) rest
  | closing :: rest => depth != 0 && isBalanced (depth - 1) rest
  | _ :: rest => isBalanced depth rest

/-- Every group among the tokens holds an expression. -/
def GroupsHold (tokens : List Token) : Prop :=
  ∀ front inner back, tokens = front ++ opening :: (inner ++ closing :: back) →
    isBalanced 0 inner = true → ∃ expression : Expression,
      expression.Proper ∧ expression.tokens = inner

theorem GroupsHold.of_append {front back : List Token} (hold : GroupsHold (front ++ back)) :
    GroupsHold back := by
  intro before inner after same balanced
  refine hold (front ++ before) inner after ?_ balanced
  rw [same, List.append_assoc]

/-- The parenthesis that closes the innermost open group, with what stands before and behind it. -/
theorem exists_closing {within outer : Nat} {tokens : List Token}
    (balanced : isBalanced (within + 1 + outer) tokens = true) :
    ∃ inner back, tokens = inner ++ closing :: back ∧ isBalanced within inner = true ∧
      isBalanced outer back = true := by
  induction tokens generalizing within with
  | nil => simp [isBalanced] at balanced
  | cons token rest ih =>
      have onward {within' : Nat} (next : isBalanced (within' + 1 + outer) rest = true)
          (same : ∀ inner, isBalanced within' inner = true →
            isBalanced within (token :: inner) = true) :
          ∃ inner back, token :: rest = inner ++ closing :: back ∧
            isBalanced within inner = true ∧ isBalanced outer back = true := by
        obtain ⟨inner, back, rfl, innerBalanced, backBalanced⟩ := ih next
        exact ⟨token :: inner, back, rfl, same inner innerBalanced, backBalanced⟩
      cases token with
      | number x => exact onward balanced fun _ inner => inner
      | text content => exact onward balanced fun _ inner => inner
      | operator operator => exact onward balanced fun _ inner => inner
      | opening =>
          refine @onward (within + 1) ?_ fun _ inner => inner
          rw [isBalanced] at balanced
          rwa [show within + 1 + 1 + outer = within + 1 + outer + 1 by omega]
      | closing =>
          simp only [isBalanced, Bool.and_eq_true] at balanced
          cases within with
          | zero =>
              refine ⟨[], rest, rfl, rfl, ?_⟩
              rw [show outer = 0 + 1 + outer - 1 by omega]
              exact balanced.2
          | succ within =>
              refine @onward within ?_ fun _ inner => by simpa [isBalanced] using inner
              rw [show within + 1 + outer = within + 1 + 1 + outer - 1 by omega]
              exact balanced.2

theorem check_of_takeQuoted {depth : Nat} {text content after : List Char}
    (read : takeQuoted text = some (content, after)) :
    Script.check depth true text = Script.check depth false after := by
  obtain ⟨literal, flat, rfl⟩ := exists_flat_of_takeQuoted read
  exact Script.check_flat flat after

/-- A token changes the depth of the text as it changes that of the tokens. -/
theorem check_of_first? {depth : Nat} {text rest : List Char} {token : Token}
    (found : first? text = .ok (token, rest)) (checked : Script.check depth false text = .ok ()) :
    ∃ depth', Script.check depth' false rest = .ok () ∧
      ∀ later, isBalanced depth (token :: later) = isBalanced depth' later := by
  cases leads_of_first? found with
  | quoted opened read same =>
      refine ⟨depth, ?_, fun _ => same ▸ rfl⟩
      rw [← check_of_takeQuoted read]
      simpa [opened, Script.check] using checked
  | number spelled numeric _ same =>
      refine ⟨depth, ?_, fun _ => same ▸ rfl⟩
      have plain : IsPlain _ := fun c member => isNumberChar_ne (numeric c member)
      rwa [spelled, Script.check_plain depth false plain] at checked
  | @symbol word member spelled =>
      have table : ∀ symbol ∈ symbols, symbol = (['('], opening) ∨ symbol = ([')'], closing) ∨
          IsPlain symbol.1 ∧ ∃ sign, symbol.2 = .operator sign := by
        simp [symbols, IsPlain]
      rw [spelled] at checked
      rcases table _ member with same | same | ⟨plain, sign, same⟩
      · obtain ⟨rfl, rfl⟩ := Prod.mk.inj same
        exact ⟨depth + 1, by simpa [Script.check] using checked, fun _ => rfl⟩
      · obtain ⟨rfl, rfl⟩ := Prod.mk.inj same
        have opened : depth ≠ 0 := by
          rintro rfl
          simp [Script.check] at checked
        exact ⟨depth - 1, by simpa [Script.check, opened] using checked,
          fun _ => by simp [isBalanced, opened]⟩
      · obtain rfl : token = .operator sign := same
        rw [Script.check_plain depth false plain] at checked
        exact ⟨depth, checked, fun _ => rfl⟩

theorem Lexed.isBalanced {depth : Nat} {text : List Char} {tokens : List Token}
    (lexed : Lexed text tokens) (checked : Script.check depth false text = .ok ()) :
    isBalanced depth tokens = true := by
  induction lexed generalizing depth with
  | nil =>
      by_contra opened
      have nonzero : depth ≠ 0 := by simpa [Token.isBalanced] using opened
      simp [Script.check, nonzero] at checked
  | @blank c rest tokens blank _ ih =>
      have other : c ≠ '"' ∧ c ≠ '(' ∧ c ≠ ')' := by
        refine ⟨?_, ?_, ?_⟩ <;> (rintro rfl; revert blank; decide)
      exact ih (by simpa [Script.check, other] using checked)
  | token found _ ih =>
      obtain ⟨depth', checked, same⟩ := check_of_first? found checked
      rw [same]
      exact ih checked

end Token

namespace Expression

theorem breaks_of_proper {expression : Expression} (proper : expression.Proper) :
    expression.breaks = [] := by
  induction expression with
  | number x => rfl
  | text content => rfl
  | sign negative operand ih => exact ih proper.2
  | group inner ih => exact ih proper
  | binary operator left right ihLeft ihRight =>
      obtain ⟨_, _, leftProper, rightProper⟩ := proper
      rw [breaks, ihLeft leftProper, ihRight rightProper, List.append_nil]
  | missing error => exact proper.elim
  | spoiled whole error _ => exact proper.elim

theorem IsCutOff.mem_breaks {frames : List Frame} {depth : Nat} {result : Expression}
    (cut : IsCutOff frames depth result) {error : FormulaError} (member : error ∈ result.breaks) :
    error ∈ frames.flatMap Frame.breaks ∨ error = .tooComplex groupLimit := by
  obtain ⟨-, begun, proper, rfl⟩ := cut
  have unbroken : begun.flatMap Frame.breaks = [] := by
    rw [List.flatMap_eq_nil_iff]
    intro frame inside
    cases frame with
    | binary left operator => exact breaks_of_proper (proper left operator inside)
    | sign negative => rfl
    | group => rfl
  have found := mem_breaks_fillAll_missing member
  rwa [List.flatMap_append, unbroken, List.nil_append] at found

/-! ## Whom the reader blames -/

/-- No group is open among the frames, and nothing in them blames the parentheses. -/
structure IsBlameless (frames : List Frame) : Prop where
  groupless : .group ∉ frames
  clean : .unbalancedParentheses ∉ frames.flatMap Frame.breaks

namespace IsBlameless

variable {frames outer : List Frame} {frame : Frame} {token : Token} {operand left : Expression}

theorem nil : IsBlameless [] := ⟨List.not_mem_nil, List.not_mem_nil⟩

theorem of_openedBy? (blameless : IsBlameless frames) (opened : openedBy? token = some frame)
    (other : token ≠ .opening) : IsBlameless (frame :: frames) := by
  have notGroup : .group ≠ frame := by
    rintro rfl
    unfold openedBy? at opened
    split at opened <;> first | exact other rfl | cases opened
  refine ⟨by simp [notGroup, blameless.groupless], ?_⟩
  rw [List.flatMap_cons, breaks_of_openedBy? opened, List.nil_append]
  exact blameless.clean

theorem binary (blameless : IsBlameless frames) (clean : .unbalancedParentheses ∉ left.breaks)
    (operator : Operator) : IsBlameless (.binary left operator :: frames) := by
  refine ⟨by simp [blameless.groupless], ?_⟩
  rw [List.flatMap_cons, List.mem_append, not_or]
  exact ⟨clean, blameless.clean⟩

theorem breaksIn (blameless : IsBlameless frames) (clean : .unbalancedParentheses ∉ operand.breaks) :
    .unbalancedParentheses ∉ breaksIn frames operand := by
  rw [Expression.breaksIn, List.mem_append, not_or]
  exact ⟨blameless.clean, clean⟩

theorem settled (blameless : IsBlameless frames) (clean : .unbalancedParentheses ∉ operand.breaks)
    (suffix : outer <:+ frames)
    (subset : Expression.breaksIn outer left ⊆ Expression.breaksIn frames operand) :
    IsBlameless outer ∧ .unbalancedParentheses ∉ left.breaks := by
  have none := mt (@subset _) (blameless.breaksIn clean)
  rw [Expression.breaksIn, List.mem_append, not_or] at none
  exact ⟨⟨fun member => blameless.groupless (suffix.subset member), none.1⟩, none.2⟩

theorem fillAll_missing (blameless : IsBlameless frames) {reason : FormulaError}
    (other : reason ≠ .unbalancedParentheses) :
    .unbalancedParentheses ∉ (fillAll frames (.missing reason)).breaks := by
  intro member
  rcases mem_breaks_fillAll_missing member with before | rfl
  · exact blameless.clean before
  · exact other rfl

theorem interrupt (blameless : IsBlameless frames)
    (clean : .unbalancedParentheses ∉ operand.breaks) :
    .unbalancedParentheses ∉ (interrupt frames operand).breaks := by
  intro member
  rcases mem_breaks_interrupt member with before | other | ⟨-, opened⟩
  · exact blameless.breaksIn clean before
  · cases other
  · exact blameless.groupless opened

theorem finish (blameless : IsBlameless frames) (clean : .unbalancedParentheses ∉ operand.breaks) :
    .unbalancedParentheses ∉ (finish frames operand).breaks := by
  intro member
  rcases mem_breaks_finish member with before | ⟨-, opened⟩
  · exact blameless.breaksIn clean before
  · exact blameless.groupless opened

end IsBlameless

/-- Reading on with these tokens never blames the parentheses, where nothing did before. -/
structure StaysBlameless (tokens : List Token) : Prop where
  readOperand {frames : List Frame} (blameless : IsBlameless frames) :
    .unbalancedParentheses ∉ (readOperand frames tokens).breaks
  readOperator {frames : List Frame} {operand : Expression} (blameless : IsBlameless frames)
    (clean : .unbalancedParentheses ∉ operand.breaks) :
    .unbalancedParentheses ∉ (readOperator frames operand tokens).breaks

namespace StaysBlameless

theorem nil : StaysBlameless [] where
  readOperand blameless := by
    rw [Expression.readOperand]
    exact blameless.fillAll_missing (by simp)
  readOperator blameless clean := by
    rw [Expression.readOperator]
    exact blameless.finish clean

variable {frames : List Frame} {rest : List Token}

theorem readOperand_cons {token : Token} (stays : StaysBlameless rest) (notOpening : token ≠ .opening)
    (notClosing : token ≠ .closing) (blameless : IsBlameless frames) :
    .unbalancedParentheses ∉ (Expression.readOperand frames (token :: rest)).breaks := by
  rcases readOperand_cons_cases frames token rest with
    ⟨operand, unbroken, step⟩ | ⟨frame, opened, step⟩ | ⟨reason, kind, step⟩
  · rw [step]
    exact stays.readOperator blameless (by simp [unbroken])
  · rw [step]
    exact stays.readOperand (blameless.of_openedBy? opened notOpening)
  · rw [step]
    refine blameless.fillAll_missing ?_
    rcases kind with rfl | rfl
    · simp
    · cases token <;> simp_all [misplaced]

theorem readOperand_group (stays : StaysBlameless rest) {inner : Expression}
    (proper : inner.Proper) (blameless : IsBlameless frames) :
    .unbalancedParentheses ∉
      (Expression.readOperand frames (.opening :: (inner.tokens ++ .closing :: rest))).breaks := by
  rcases readOperand_group_or_cutOff proper frames rest with read | cut
  · rw [read]
    exact stays.readOperator blameless (by simp [breaks, breaks_of_proper proper])
  · intro member
    rcases cut.mem_breaks member with before | other
    · exact blameless.clean before
    · cases other

theorem readOperator_operator (stays : StaysBlameless rest) {operand : Expression}
    (operator : Operator) (blameless : IsBlameless frames)
    (clean : .unbalancedParentheses ∉ operand.breaks) :
    .unbalancedParentheses ∉
      (Expression.readOperator frames operand (.operator operator :: rest)).breaks := by
  obtain ⟨outer, left, suffix, subset, step⟩ :=
    readOperator_operator_cases frames operand operator rest
  obtain ⟨outerBlameless, leftClean⟩ := blameless.settled clean suffix subset
  rcases step with step | step
  · rw [step]
    exact outerBlameless.interrupt leftClean
  · rw [step]
    exact stays.readOperand (outerBlameless.binary leftClean operator)

/-- The reader blames the parentheses only for a group that holds no expression, if the parentheses
match and no group is open. -/
theorem of_groupsHold {tokens : List Token} (balanced : Token.isBalanced 0 tokens = true)
    (hold : Token.GroupsHold tokens) : StaysBlameless tokens := by
  -- A group is read whole, so what stands behind it is shorter by more than one token.
  induction length : tokens.length using Nat.strong_induction_on generalizing tokens with
  | _ count ih =>
  cases tokens with
  | nil => exact .nil
  | cons token rest =>
      have restHold : Token.GroupsHold rest := @Token.GroupsHold.of_append [token] rest hold
      have onward (restBalanced : Token.isBalanced 0 rest = true) : StaysBlameless rest :=
        ih rest.length (by simp [← length]) restBalanced restHold rfl
      cases token with
      | closing => simp [Token.isBalanced] at balanced
      | number x =>
          have stays := onward balanced
          exact ⟨stays.readOperand_cons (by simp) (by simp), IsBlameless.interrupt⟩
      | text content =>
          have stays := onward balanced
          exact ⟨stays.readOperand_cons (by simp) (by simp), IsBlameless.interrupt⟩
      | operator operator =>
          have stays := onward balanced
          exact ⟨stays.readOperand_cons (by simp) (by simp), stays.readOperator_operator operator⟩
      | opening =>
          obtain ⟨inner, back, rfl, innerBalanced, backBalanced⟩ :=
            @Token.exists_closing 0 0 rest balanced
          obtain ⟨whole, proper, rfl⟩ := hold [] inner back rfl innerBalanced
          have backHold : Token.GroupsHold back := by
            refine @Token.GroupsHold.of_append (whole.tokens ++ [.closing]) back ?_
            rwa [List.append_assoc]
          have stays := ih back.length (by simp [← length]; omega) backBalanced backHold rfl
          exact ⟨stays.readOperand_group proper, IsBlameless.interrupt⟩

end StaysBlameless

theorem exists_group_of_unbalanced {text : List Char} (checked : Script.check 0 false text = .ok ())
    (failed : valueOf text = .error .unbalancedParentheses) :
    ∃ tokens, Token.ofText text = .ok tokens ∧ Token.isBalanced 0 tokens = true ∧
      ¬ Token.GroupsHold tokens := by
  rcases valueOf_eq_error failed with ⟨_, _, other⟩ | other | ⟨tokens, read, broken⟩
  · cases other
  · cases other
  · have balanced := (Token.lexed_of_ofText read).isBalanced checked
    refine ⟨tokens, read, balanced, ?_⟩
    intro hold
    exact (StaysBlameless.of_groupsHold balanced hold).readOperand .nil broken

end Expression

end Worksheet
