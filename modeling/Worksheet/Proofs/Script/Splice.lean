import Mathlib
import Worksheet.Proofs.Outcome
import Worksheet.Proofs.Script.Name

/-!
# Splicing literals

A literal that takes the place of a call is either plain text in which no name ends, or a group of
its own. Either way the script stays matched and its text is the text around the call with the
literal between.
-/

set_option autoImplicit false

namespace Worksheet

/-- Plain text without a name at its end, whatever word stands in front of it. -/
structure IsPlainLiteral (literal : List Char) : Prop where
  flat : isFlat false literal = true
  nonempty : literal ≠ []
  nameless : ∀ before, StopsName before → nameBehind? (literal.reverse ++ before) = none

theorem isPlainLiteral_digits {digits : List Char} (shape : IsDigits digits) :
    IsPlainLiteral digits := by
  obtain ⟨first, rest, same, _, numeric⟩ := shape
  exact ⟨isFlat_numeric numeric, by simp [same], fun _ => nameBehind?_of_numeric numeric⟩

theorem isPlainLiteral_quote (content : List Char) : IsPlainLiteral (quote content) :=
  ⟨isFlat_quoted content, by simp [quote],
    fun before _ => (stopsName_quote content before).nameBehind?_eq⟩

theorem isFlat_negative {digits : List Char}
    (numeric : ∀ c ∈ digits, Token.isNumberChar c = true) :
    isFlat false ('-' :: digits) = true := by
  rw [isFlat_without (by decide) (by decide) (by decide)]
  exact isFlat_numeric numeric

namespace Script

theorem splice_cases {value : Value} (finite : value.IsFinite) (before : List Char)
    (rest : Script) :
    IsPlainLiteral value.literal ∧
        splice before value rest = rest.prepend (before ++ value.literal) ∨
      ∃ inner, isFlat false inner = true ∧ value.literal = '(' :: (inner ++ [')']) ∧
        splice before value rest = group before (plain inner) rest := by
  cases value with
  | text content => exact .inl ⟨isPlainLiteral_quote content, rfl⟩
  | number x =>
      have shape := isDigits_unsignedDigits (x + 0.0)
      rcases numberLiteral_cases finite with ⟨below, literal⟩ | ⟨above, literal⟩
      · right
        obtain ⟨_, _, _, _, numeric⟩ := shape
        refine ⟨'-' :: unsignedDigits (x + 0.0), isFlat_negative numeric, literal, ?_⟩
        simp only [splice]
        rw [if_pos below, spellNumber_of_lt finite below]
      · left
        simp only [splice, Value.literal]
        rw [literal, if_neg above, spellNumber_of_not_lt finite above]
        exact ⟨isPlainLiteral_digits shape, rfl⟩

theorem chars_splice {value : Value} (finite : value.IsFinite) (before : List Char)
    (rest : Script) : (splice before value rest).chars = before ++ value.literal ++ rest.chars := by
  rcases splice_cases finite before rest with ⟨_, spliced⟩ | ⟨inner, _, literal, spliced⟩
  · rw [spliced, chars_prepend]
  · rw [spliced, literal]
    simp [chars]

theorem chars_splice_alone {value : Value} (finite : value.IsFinite) :
    (splice [] value (.plain [])).chars = value.literal := by
  rw [chars_splice finite, List.nil_append, chars, List.append_nil]

theorem matched_splice {value : Value} (finite : value.IsFinite) {inside : Bool}
    {before : List Char} (flat : isFlat inside before = true) {rest : Script}
    (matched : rest.Matched false) : (splice before value rest).Matched inside := by
  rcases splice_cases finite before rest with ⟨plain, spliced⟩ | ⟨inner, innerFlat, _, spliced⟩
  · rw [spliced]
    exact matched.prepend ((isFlat_append flat _).trans plain.flat)
  · rw [spliced]
    exact ⟨flat, innerFlat, matched⟩

def ReturnsFinite (call : CallValue) : Prop :=
  ∀ name arguments value, call name arguments = .ok value → value.IsFinite

theorem returnsFinite_call (registry : Registry) (settings : Settings) :
    ReturnsFinite (registry.call settings) :=
  fun _ _ _ => Registry.isFinite_of_call

/-- What a pass makes of a script when the calls in it succeed. It goes into a group that holds a
call; any other group stays as it is, or is replaced if it is a call itself. -/
inductive PassesTo (call : CallValue) : Script → Script → Prop
  | plain (content : List Char) : PassesTo call (plain content) (plain content)
  | inward {lead : List Char} {inner passedInner rest passedRest : Script}
      (nested : inner.hasCall = true) (innerPasses : PassesTo call inner passedInner)
      (restPasses : PassesTo call rest passedRest) :
      PassesTo call (group lead inner rest) (group lead passedInner passedRest)
  | kept {lead : List Char} {inner rest passedRest : Script} (leaf : inner.hasCall = false)
      (nameless : callName? lead = none) (restPasses : PassesTo call rest passedRest) :
      PassesTo call (group lead inner rest) (group lead inner passedRest)
  | replaced {lead name : List Char} {inner rest passedRest : Script} {value : Value}
      (leaf : inner.hasCall = false) (named : callName? lead = some name)
      (called : call name (Arguments.split inner.chars) = .ok value)
      (restPasses : PassesTo call rest passedRest) :
      PassesTo call (group lead inner rest) (splice (beforeName lead name) value passedRest)

variable {call : CallValue}

theorem pass_eq_ok {script passed : Script} :
    script.pass call = .ok passed ↔ PassesTo call script passed := by
  constructor
  · intro success
    induction script generalizing passed with
    | plain content =>
        cases success
        exact .plain content
    | group lead inner rest ihInner ihRest =>
        obtain ⟨passedRest, restSuccess, success⟩ := Outcome.bind_eq_ok.mp success
        have restPasses := ihRest restSuccess
        by_cases nested : inner.hasCall = true
        · rw [if_pos nested] at success
          obtain ⟨passedInner, innerSuccess, success⟩ := Outcome.bind_eq_ok.mp success
          cases success
          exact .inward nested (ihInner innerSuccess) restPasses
        · rw [if_neg nested] at success
          rw [Bool.not_eq_true] at nested
          cases named : callName? lead with
          | none =>
              rw [named] at success
              cases success
              exact .kept nested named restPasses
          | some name =>
              rw [named] at success
              obtain ⟨value, called, success⟩ := Outcome.bind_eq_ok.mp success
              cases success
              exact .replaced nested named called restPasses
  · intro passes
    induction passes with
    | plain content => rfl
    | inward nested _ _ ihInner ihRest => simp [pass, nested, ihInner, ihRest]
    | kept leaf nameless _ ihRest => simp [pass, leaf, nameless, ihRest]
    | replaced leaf named called _ ihRest => simp [pass, leaf, named, called, ihRest]

theorem matched_pass (finite : ReturnsFinite call) {script passed : Script}
    {inside : Bool} (matched : script.Matched inside) (success : script.pass call = .ok passed) :
    passed.Matched inside := by
  rw [pass_eq_ok] at success
  induction success generalizing inside with
  | plain content => exact matched
  | inward _ _ _ ihInner ihRest => exact ⟨matched.1, ihInner matched.2.1, ihRest matched.2.2⟩
  | kept _ _ _ ihRest => exact ⟨matched.1, matched.2.1, ihRest matched.2.2⟩
  | replaced _ named called _ ihRest =>
      exact matched_splice (finite _ _ _ called) (isFlat_beforeName matched.1 named)
        (ihRest matched.2.2)

/-- What a reduction that succeeds makes of a script: passes follow one another until no call is
left. -/
inductive ReducesTo (call : CallValue) : Nat → Script → Script → Prop
  | done {script : Script} (none : script.hasCall = false) (passes : Nat) :
      ReducesTo call passes script script
  | step {passes : Nat} {script passed residue : Script} (calls : script.hasCall = true)
      (success : script.pass call = .ok passed) (later : ReducesTo call passes passed residue) :
      ReducesTo call (passes + 1) script residue

theorem reduce_of_no_call {limit : Nat} {script : Script} (none : script.hasCall = false)
    (passes : Nat) : script.reduce call limit passes = .ok script := by
  cases passes <;> simp [reduce, none]

theorem reduce_of_pass {limit passes : Nat} {script passed residue : Script}
    (success : script.pass call = .ok passed) (calls : script.hasCall = true)
    (reduced : passed.reduce call limit passes = .ok residue) :
    script.reduce call limit (passes + 1) = .ok residue := by
  rw [reduce, if_pos calls, success, Outcome.ok_bind, reduced]

theorem reduce_eq_ok {limit passes : Nat} {script residue : Script} :
    script.reduce call limit passes = .ok residue ↔ ReducesTo call passes script residue := by
  constructor
  · intro success
    induction passes generalizing script with
    | zero =>
        cases calls : script.hasCall with
        | true => simp [reduce, calls] at success
        | false =>
            rw [reduce_of_no_call calls] at success
            cases success
            exact .done calls 0
    | succ passes ih =>
        cases calls : script.hasCall with
        | true =>
            rw [reduce, if_pos calls] at success
            obtain ⟨passed, passSuccess, success⟩ := Outcome.bind_eq_ok.mp success
            exact .step calls passSuccess (ih success)
        | false =>
            rw [reduce_of_no_call calls] at success
            cases success
            exact .done calls (passes + 1)
  · intro reduces
    induction reduces with
    | done none passes => exact reduce_of_no_call none passes
    | step calls success _ ih => exact reduce_of_pass success calls ih

theorem hasCall_of_reduce {limit passes : Nat} {script residue : Script}
    (success : script.reduce call limit passes = .ok residue) : residue.hasCall = false := by
  rw [reduce_eq_ok] at success
  induction success with
  | done none => exact none
  | step _ _ _ ih => exact ih

theorem matched_reduce (finite : ReturnsFinite call) {limit passes : Nat} {script residue : Script}
    (matched : script.Matched false) (success : script.reduce call limit passes = .ok residue) :
    residue.Matched false := by
  rw [reduce_eq_ok] at success
  induction success with
  | done => exact matched
  | step _ success _ ih => exact ih (matched_pass finite matched success)

end Script

end Worksheet
