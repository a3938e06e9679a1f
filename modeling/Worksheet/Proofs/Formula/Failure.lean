import Mathlib
import Worksheet.Proofs.Expression.Balance
import Worksheet.Proofs.Formula.Structure
import Worksheet.Proofs.Function.Errors
import Worksheet.Proofs.Script.Arguments
import Worksheet.Proofs.Script.Reduction

/-!
# Where an evaluation fails

A formula that passes the check fails in one of few ways: at a reference, at the limit of nesting,
at a name that it calls, or at an expression that is read, which is an argument of a call or what is
left in the end. The text of every such expression passes the check of its own.
-/

set_option autoImplicit false

namespace Worksheet

theorem resolvePiece_eq_error {grid : Grid} {settings : Settings} {place : Place} {piece : Piece}
    {rest : List Piece} {error : FormulaError}
    (failed : resolvePiece grid settings place piece rest = .error error) :
    ∃ token, error = .malformedReference token := by
  have refused {token fallback : List Char}
      (failed : unresolved settings token fallback = .error error) :
      ∃ token, error = .malformedReference token := by
    unfold unresolved at failed
    split at failed
    · exact ⟨_, (Except.error.inj failed).symm⟩
    · cases failed
  unfold resolvePiece at failed
  split at failed
  · cases failed
  · cases piece with
    | plain c => cases failed
    | range token =>
        simp only [rangeLiteral] at failed
        split at failed
        · cases failed
        · split at failed
          · exact refused failed
          · split at failed
            · exact refused failed
            · cases failed
    | cell token =>
        simp only [cellLiteral] at failed
        split at failed
        · exact refused failed
        · cases failed

theorem resolve_eq_error {grid : Grid} {settings : Settings} {text : List Char}
    {error : FormulaError} (failed : resolve grid settings text = .error error) :
    ∃ token, error = .malformedReference token := by
  have onPieces (pieces : List Piece) (place : Place)
      (failed : resolvePieces grid settings place pieces = .error error) :
      ∃ token, error = .malformedReference token := by
    induction pieces generalizing place with
    | nil => cases failed
    | cons piece rest ih =>
        rcases Outcome.bind_eq_error.mp failed with failed | ⟨_, _, failed⟩
        · exact resolvePiece_eq_error failed
        rcases Outcome.bind_eq_error.mp failed with failed | ⟨_, _, failed⟩
        · exact ih _ failed
        · cases failed
  exact onPieces _ _ failed

namespace Script

variable {call : CallValue} {limit : Nat} {error : FormulaError}

theorem reduce_eq_error {passes : Nat} {script : Script}
    (failed : script.reduce call limit passes = .error error) :
    error = .tooComplex limit ∨
      ∃ dispatch ∈ script.dispatches call passes, dispatch.outcome call = .error error := by
  induction passes generalizing script with
  | zero =>
      unfold reduce at failed
      split at failed
      · exact .inl (Except.error.inj failed).symm
      · cases failed
  | succ passes ih =>
      unfold reduce at failed
      split at failed
      · rename_i calls
        rw [dispatches, if_pos calls]
        rcases Outcome.bind_eq_error.mp failed with failed | ⟨passed, success, failed⟩
        · right
          obtain ⟨dispatch, member, outcome⟩ := exists_error_of_pass failed [] []
          exact ⟨dispatch, List.mem_append_left _ member, outcome⟩
        · refine (ih failed).imp_right ?_
          rintro ⟨dispatch, member, outcome⟩
          refine ⟨dispatch, List.mem_append_right _ ?_, outcome⟩
          rw [success]
          exact member
      · cases failed

theorem callNames_sublist_of_isRun (finite : ReturnsFinite call) {start : List Char}
    {log : List Dispatch} (run : IsRun call start log)
    (isCall : ∀ dispatch ∈ log, dispatch.IsCall) :
    ∀ dispatch ∈ log, (callNames dispatch.text).Sublist (callNames start) := by
  induction log generalizing start with
  | nil => exact fun _ none => absurd none List.not_mem_nil
  | cons dispatch later ih =>
      obtain ⟨rfl, run⟩ := run
      intro other member
      rcases List.mem_cons.mp member with rfl | member
      · exact List.Sublist.refl _
      · cases outcome : dispatch.outcome call with
        | error error =>
            rw [outcome] at run
            rw [run] at member
            cases member
        | ok value =>
            rw [outcome] at run
            have rest := ih run (fun other member => isCall other (List.mem_cons_of_mem _ member))
              other member
            have fewer := (isCall dispatch List.mem_cons_self).callNames_sublist
              (finite _ _ _ outcome)
            exact rest.trans fewer.1

theorem mem_callNames_of_mem_dispatches (finite : ReturnsFinite call) {text : List Char}
    {script : Script} (read : ofChars text = .ok script) {passes : Nat} {dispatch : Dispatch}
    (member : dispatch ∈ script.dispatches call passes) : dispatch.name ∈ callNames text := by
  obtain ⟨matched, rfl⟩ := ofChars_eq_ok.mp read
  have isCall : ∀ dispatch ∈ script.dispatches call passes, dispatch.IsCall :=
    fun _ => isCall_of_mem_dispatches finite matched
  have fewer := callNames_sublist_of_isRun finite (isRun_dispatches finite passes script) isCall
    dispatch member
  obtain ⟨_, own⟩ := (isCall dispatch member).callNames_text
  apply fewer.subset
  simp [own]

end Script

theorem Calculator.result_eq_error {text : List Char} {error : FormulaError}
    (failed : Calculator.result text = .error error) :
    (∃ fault, (fault = .unexpectedCharacter ∨ fault = .numberExpected) ∧
        error = .invalidExpression fault) ∨
      Expression.valueOf (trim text) = .error error := by
  unfold Calculator.result at failed
  split at failed
  · cases failed
  · rcases Outcome.bind_eq_error.mp failed with failed | ⟨_, _, failed⟩
    · unfold Expression.arithmeticOf at failed
      split at failed
      · rcases Outcome.bind_eq_error.mp failed with failed | ⟨value, _, failed⟩
        · exact .inr failed
        · cases value with
          | number x => cases failed
          | text content => exact .inl ⟨_, .inr rfl, (Except.error.inj failed).symm⟩
      · exact .inl ⟨_, .inl rfl, (Except.error.inj failed).symm⟩
    · cases failed

namespace Calculator

/-- The texts that are read as expressions when a formula is evaluated: the arguments of the calls
that are made, and what the reduction leaves. -/
def Reads (calculator : Calculator) (grid : Grid) (formula text : List Char) : Prop :=
  ∃ resolved script,
    resolve grid calculator.settings (Formula.body formula) = .ok resolved ∧
      Script.ofChars resolved = .ok script ∧
      ((∃ dispatch ∈ script.dispatches (calculator.registry.call calculator.settings)
          calculator.settings.nestingLimit, text ∈ Arguments.split dispatch.inner) ∨
        ∃ result, calculator.reduce resolved = .ok result ∧ text = trim result)

variable {calculator : Calculator} {grid : Grid} {formula : List Char} {error : FormulaError}

/-- A formula that passes the check fails at a reference, at the limit, at a call of a name that it
calls, or with what the calls leave. -/
theorem evaluate_eq_error_cases (clean : calculator.check formula = [])
    (failed : calculator.evaluate formula grid = .error error) :
    resolve grid calculator.settings (Formula.body formula) = .error error ∨
      ∃ resolved script,
        resolve grid calculator.settings (Formula.body formula) = .ok resolved ∧
          Script.ofChars resolved = .ok script ∧
          (error = .tooComplex calculator.settings.nestingLimit ∨
            (∃ dispatch ∈ script.dispatches (calculator.registry.call calculator.settings)
                calculator.settings.nestingLimit,
              dispatch.name ∈ callNames (Formula.body formula) ∧
                dispatch.outcome (calculator.registry.call calculator.settings) = .error error) ∨
            ∃ reduced, calculator.reduce resolved = .ok reduced ∧
              result reduced = .error error) := by
  have finite := Script.returnsFinite_call calculator.registry calculator.settings
  unfold Calculator.evaluate at failed
  rw [clean] at failed
  rcases Outcome.bind_eq_error.mp failed with failed | ⟨resolved, resolves, failed⟩
  · exact .inl failed
  obtain ⟨names, check⟩ := resolve_keeps resolves
  obtain ⟨script, read⟩ := Script.ofChars_of_check (check.trans (Formula.check_body clean))
  refine .inr ⟨resolved, script, resolves, read, ?_⟩
  rcases Outcome.bind_eq_error.mp failed with failed | ⟨reduced, success, failed⟩
  · rw [Calculator.reduce, Script.reduceText, read, Outcome.ok_bind] at failed
    rcases Outcome.bind_eq_error.mp failed with failed | ⟨_, _, failed⟩
    · rcases Script.reduce_eq_error failed with limit | ⟨dispatch, member, outcome⟩
      · exact .inl limit
      · have called := Script.mem_callNames_of_mem_dispatches finite read member
        exact .inr (.inl ⟨dispatch, member, names ▸ called, outcome⟩)
    · cases failed
  · exact .inr (.inr ⟨reduced, success, failed⟩)

/-- A formula that passes the check fails at a reference, at the limit, at a name that it calls, or
at an expression that is read. -/
theorem evaluate_eq_error (clean : calculator.check formula = [])
    (passes : calculator.registry.PassesOn error)
    (failed : calculator.evaluate formula grid = .error error) :
    (∃ token, error = .malformedReference token) ∨
      error = .tooComplex calculator.settings.nestingLimit ∨
      (∃ fault, error = .invalidExpression fault) ∨
      (∃ name ∈ callNames (Formula.body formula), error = .unknownFunction (capitals name) ∧
        calculator.registry.contains name = false) ∨
      ∃ text, calculator.Reads grid formula text ∧ Expression.valueOf text = .error error := by
  rcases evaluate_eq_error_cases clean failed with
    failed | ⟨resolved, script, resolves, read, failed⟩
  · exact .inl (resolve_eq_error failed)
  rcases failed with limit | ⟨dispatch, member, called, outcome⟩ | ⟨reduced, success, failed⟩
  · exact .inr (.inl limit)
  · rcases Registry.call_eq_error passes outcome with
      ⟨unknown, absent⟩ | invalid | ⟨argument, inArguments, failed⟩
    · exact .inr (.inr (.inr (.inl ⟨dispatch.name, called, unknown, absent⟩)))
    · exact .inr (.inr (.inl invalid))
    · exact .inr (.inr (.inr (.inr
        ⟨argument, ⟨resolved, script, resolves, read, .inl ⟨dispatch, member, inArguments⟩⟩,
          failed⟩)))
  · rcases result_eq_error failed with ⟨fault, _, invalid⟩ | failed
    · exact .inr (.inr (.inl ⟨fault, invalid⟩))
    · exact .inr (.inr (.inr (.inr
        ⟨_, ⟨resolved, script, resolves, read, .inr ⟨reduced, success, rfl⟩⟩, failed⟩)))

theorem check_of_reads {text : List Char} (reads : calculator.Reads grid formula text) :
    Script.check 0 false text = .ok () := by
  have finite := Script.returnsFinite_call calculator.registry calculator.settings
  have checked {text : List Char} {script : Script} (read : Script.ofChars text = .ok script) :
      Script.check 0 false text = .ok () := by
    obtain ⟨_, checked, _⟩ := Outcome.bind_eq_ok.mp read
    exact checked
  obtain ⟨resolved, script, _, read, ⟨dispatch, member, inArguments⟩ | ⟨result, success, rfl⟩⟩ :=
    reads
  · obtain ⟨matched, _⟩ := Script.ofChars_eq_ok.mp read
    obtain ⟨inner, innerRead, _⟩ :=
      (Script.isCall_of_mem_dispatches finite matched member).inner_read
    exact Arguments.check_split (checked innerRead) text inArguments
  · obtain ⟨matched, _⟩ := Script.ofChars_eq_ok.mp read
    obtain ⟨residue, reduction, rfl⟩ := (calculator.reduce_eq_ok read result).mp success
    have left := Script.ofChars_eq_ok.mpr ⟨Script.matched_reduce finite matched reduction, rfl⟩
    exact check_trim (checked left)

/-- A formula that passes the check is blamed for its parentheses only when a group holds no
expression: it stands in an expression that is read and whose own parentheses match. -/
theorem unbalanced_only_for_spoiled_group (clean : calculator.check formula = [])
    (passes : calculator.registry.PassesOn .unbalancedParentheses)
    (failed : calculator.evaluate formula grid = .error .unbalancedParentheses) :
    ∃ text tokens, calculator.Reads grid formula text ∧ Script.check 0 false text = .ok () ∧
      Token.ofText text = .ok tokens ∧ Token.isBalanced 0 tokens = true ∧
      ¬ Token.GroupsHold tokens := by
  rcases evaluate_eq_error clean passes failed with
    ⟨_, other⟩ | other | ⟨_, other⟩ | ⟨_, _, other, _⟩ | ⟨text, reads, failed⟩
  · cases other
  · cases other
  · cases other
  · cases other
  · have checked := check_of_reads reads
    obtain ⟨tokens, read, balanced, spoiled⟩ := Expression.exists_group_of_unbalanced checked failed
    exact ⟨text, tokens, reads, checked, read, balanced, spoiled⟩

/-- Two numbers stand side by side in parentheses that match. -/
theorem unbalanced_only_for_spoiled_group_of_pair :
    ∃ text tokens, Calculator.Reads {} {} "=(1 2)".toList text ∧
      Script.check 0 false text = .ok () ∧ Token.ofText text = .ok tokens ∧
      Token.isBalanced 0 tokens = true ∧ ¬ Token.GroupsHold tokens :=
  unbalanced_only_for_spoiled_group (by decide)
    (Registry.passesOn_standard nofun)
    (by decide +kernel : Calculator.evaluate {} "=(1 2)".toList {} =
      .error .unbalancedParentheses)

/-- Parentheses that match are blamed all the same. -/
theorem unbalanced_after_check :
    Calculator.check {} "=(1 2)".toList = [] ∧
      Calculator.evaluate {} "=(1 2)".toList {} = .error .unbalancedParentheses := by
  decide +kernel

end Calculator

end Worksheet
