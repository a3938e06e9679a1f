import Mathlib
import Worksheet.Proofs.Script.Dispatch

/-!
# Passes and recursion

A reduction replaces calls pass by pass, the innermost ones first. `Script.collapse` goes down the
script instead and replaces each call once its own arguments are done. Every pass lowers the depth
of the calls by one and leaves the collapse as it is, so a reduction within its limit is the
collapse, and one that the limit cuts off fails for that reason only.

This needs names to stand apart from what is in front of them: behind a closing parenthesis that
becomes a digit, a name would be lost.
-/

set_option autoImplicit false

namespace Worksheet.Script

def callDepth : Script → Nat
  | plain _ => 0
  | group lead inner rest =>
      max (inner.callDepth + if (callName? lead).isSome then 1 else 0) rest.callDepth

/-- Replaces each call by the literal of its value, its own arguments first. -/
def collapse (call : CallValue) : Script → Except FormulaError (List Char)
  | plain content => .ok content
  | group lead inner rest => do
      let argument ← inner.collapse call
      match callName? lead with
      | some name => do
          let value ← call name (Arguments.split argument)
          return beforeName lead name ++ value.literal ++ (← rest.collapse call)
      | none => return lead ++ '(' :: argument ++ ')' :: (← rest.collapse call)

/-- No name of a call stands directly behind a closing parenthesis. The flag tells whether the
script itself does. -/
def NamesApart (behindGroup : Bool) : Script → Prop
  | plain _ => True
  | group lead inner rest =>
      (behindGroup = true → ∀ name ∈ callName? lead, beforeName lead name ≠ []) ∧
        inner.NamesApart false ∧ rest.NamesApart true

instance decidableNamesApart :
    (behindGroup : Bool) → (script : Script) → Decidable (script.NamesApart behindGroup)
  | _, plain _ => .isTrue trivial
  | behindGroup, group lead inner rest =>
      have := decidableNamesApart false inner
      have := decidableNamesApart true rest
      inferInstanceAs (Decidable
        ((behindGroup = true → ∀ name ∈ callName? lead, beforeName lead name ≠ []) ∧ _ ∧ _))

theorem hasCall_iff (script : Script) : script.hasCall = true ↔ 0 < script.callDepth := by
  induction script with
  | plain content => simp [hasCall, callDepth]
  | group lead inner rest ihInner ihRest =>
      simp only [hasCall, callDepth, Bool.or_eq_true, ihInner, ihRest]
      cases (callName? lead).isSome
      · simp
      · simp

theorem callDepth_eq_zero_iff (script : Script) : script.callDepth = 0 ↔ script.hasCall = false := by
  rw [← Bool.not_eq_true, hasCall_iff, Nat.not_lt, Nat.le_zero]

theorem callDepth_of_no_call {script : Script} (none : script.hasCall = false) :
    script.callDepth = 0 :=
  script.callDepth_eq_zero_iff.mpr none

theorem collapse_of_no_call {call : CallValue} {script : Script} (none : script.hasCall = false) :
    script.collapse call = .ok script.chars := by
  induction script with
  | plain content => rfl
  | group lead inner rest ihInner ihRest =>
      simp only [hasCall, Bool.or_eq_false_iff] at none
      obtain ⟨⟨nameless, innerNone⟩, restNone⟩ := none
      have unnamed : callName? lead = Option.none := by simpa using nameless
      simp [collapse, ihInner innerNone, ihRest restNone, unnamed, chars]

def KeepsName (text : List Char) : Script → Prop
  | plain _ => True
  | group lead _ _ => callName? (text ++ lead) = callName? lead

theorem keepsName_of_apart {text : List Char} (nameless : callName? text = none) {script : Script}
    (apart : script.NamesApart true) : KeepsName text script := by
  cases script with
  | plain content => trivial
  | group lead inner rest => exact callName?_append_of_apart nameless (apart.1 rfl)

theorem callDepth_prepend {text : List Char} {script : Script} (keeps : KeepsName text script) :
    (script.prepend text).callDepth = script.callDepth := by
  cases script with
  | plain content => rfl
  | group lead inner rest =>
      have same : callName? (text ++ lead) = callName? lead := keeps
      simp only [prepend, callDepth, same]

theorem collapse_prepend {call : CallValue} {text : List Char} {script : Script}
    (keeps : KeepsName text script) :
    (script.prepend text).collapse call = (text ++ ·) <$> script.collapse call := by
  cases script with
  | plain content => rfl
  | group lead inner rest =>
      have same : callName? (text ++ lead) = callName? lead := keeps
      simp only [prepend, collapse, same]
      cases inner.collapse call with
      | error error => rfl
      | ok argument =>
          cases named : callName? lead with
          | none =>
              cases rest.collapse call with
              | error error => rfl
              | ok tail => simp
          | some name =>
              simp only [Outcome.ok_bind, beforeName_append named]
              cases call name (Arguments.split argument) with
              | error error => rfl
              | ok value =>
                  cases rest.collapse call with
                  | error error => rfl
                  | ok tail => simp

theorem NamesApart.prepend {text : List Char} (nonempty : text ≠ [])
    {script : Script} (keeps : KeepsName text script) (apart : script.NamesApart true)
    (behindGroup : Bool) : (script.prepend text).NamesApart behindGroup := by
  cases script with
  | plain content => trivial
  | group lead inner rest =>
      refine ⟨fun _ name named => ?_, apart.2⟩
      have same : callName? (text ++ lead) = callName? lead := keeps
      rw [beforeName_append (same ▸ named)]
      simp [nonempty]

variable {call : CallValue}

theorem splice_spec {before : List Char} (stops : StopsName before.reverse) {value : Value}
    (finiteValue : value.IsFinite) {rest : Script} (apart : rest.NamesApart true)
    (behindGroup : Bool) :
    (splice before value rest).collapse call =
        ((before ++ value.literal) ++ ·) <$> rest.collapse call ∧
      (splice before value rest).callDepth = rest.callDepth ∧
      (splice before value rest).NamesApart behindGroup := by
  rcases splice_cases finiteValue before rest with
    ⟨plain, spliced⟩ | ⟨inner, flat, literal, spliced⟩
  · have nameless : callName? (before ++ value.literal) = none := by
      rw [callName?, List.reverse_append]
      exact plain.nameless _ stops
    have keeps := keepsName_of_apart nameless apart
    rw [spliced]
    exact ⟨collapse_prepend keeps, callDepth_prepend keeps,
      apart.prepend (by simp [plain.nonempty]) keeps behindGroup⟩
  · have nameless : callName? before = none := stops.nameBehind?_eq
    rw [spliced, literal]
    refine ⟨?_, ?_, ?_, trivial, apart⟩
    · cases tail : rest.collapse call <;> simp [collapse, nameless, tail]
    · simp [callDepth, nameless]
    · intro _ other found
      rw [nameless] at found
      cases found

theorem exists_pass_of_collapse {script : Script} {text : List Char}
    (collapsed : script.collapse call = .ok text) : ∃ passed, script.pass call = .ok passed := by
  induction script generalizing text with
  | plain content => exact ⟨_, rfl⟩
  | group lead inner rest ihInner ihRest =>
      obtain ⟨argument, innerCollapsed, collapsed⟩ := Outcome.bind_eq_ok.mp collapsed
      obtain ⟨passedInner, innerSuccess⟩ := ihInner innerCollapsed
      have restCollapsed : ∃ tail, rest.collapse call = .ok tail := by
        cases outcome : rest.collapse call with
        | ok tail => exact ⟨tail, rfl⟩
        | error error =>
            cases named : callName? lead with
            | none => simp [named, outcome] at collapsed
            | some name =>
                cases called : call name (Arguments.split argument) <;>
                  simp [named, outcome, called] at collapsed
      obtain ⟨tail, restCollapsed⟩ := restCollapsed
      obtain ⟨passedRest, restSuccess⟩ := ihRest restCollapsed
      unfold pass
      rw [restSuccess, Outcome.ok_bind]
      by_cases nested : inner.hasCall = true
      · rw [if_pos nested, innerSuccess]
        exact ⟨_, rfl⟩
      · rw [if_neg nested]
        have whole : inner.hasCall = false := by simpa using nested
        rw [collapse_of_no_call whole] at innerCollapsed
        cases innerCollapsed
        cases named : callName? lead with
        | none => exact ⟨_, rfl⟩
        | some name =>
            rw [named] at collapsed
            obtain ⟨value, called, _⟩ := Outcome.bind_eq_ok.mp collapsed
            simp only [called]
            exact ⟨_, rfl⟩

section Finite

variable (finite : ReturnsFinite call)
include finite

/-- A pass leaves the collapse of a script and lowers the depth of its calls by one. -/
theorem pass_spec {script passed : Script} {behindGroup : Bool}
    (apart : script.NamesApart behindGroup) (success : script.pass call = .ok passed) :
    passed.collapse call = script.collapse call ∧
      passed.callDepth = script.callDepth - 1 ∧ passed.NamesApart behindGroup := by
  rw [pass_eq_ok] at success
  induction success generalizing behindGroup with
  | plain content => exact ⟨rfl, rfl, trivial⟩
  | inward nested _ _ ihInner ihRest =>
      obtain ⟨leadApart, innerApart, restApart⟩ := apart
      obtain ⟨restCollapse, restDepth, restApart'⟩ := ihRest restApart
      obtain ⟨innerCollapse, innerDepth, innerApart'⟩ := ihInner innerApart
      have deep := (hasCall_iff _).mp nested
      refine ⟨?_, ?_, leadApart, innerApart', restApart'⟩
      · simp only [collapse, innerCollapse, restCollapse]
      · simp only [callDepth, innerDepth, restDepth]
        omega
  | kept leaf nameless _ ihRest =>
      obtain ⟨leadApart, innerApart, restApart⟩ := apart
      obtain ⟨restCollapse, restDepth, restApart'⟩ := ihRest restApart
      refine ⟨?_, ?_, leadApart, innerApart, restApart'⟩
      · simp only [collapse, nameless, restCollapse]
      · simp [callDepth, nameless, callDepth_of_no_call leaf, restDepth]
  | @replaced _ _ _ rest passedRest value leaf named called _ ihRest =>
      obtain ⟨restCollapse, restDepth, restApart⟩ := ihRest apart.2.2
      obtain ⟨spliceCollapse, spliceDepth, spliceApart⟩ :=
        splice_spec (lead_eq_of_callName? named).2 (finite _ _ _ called) restApart behindGroup
      refine ⟨?_, ?_, spliceApart⟩
      · rw [spliceCollapse, restCollapse]
        cases tail : rest.collapse call <;>
          simp [collapse, named, collapse_of_no_call leaf, called, tail]
      · rw [spliceDepth, restDepth, callDepth, callDepth_of_no_call leaf, named]
        simp only [Option.isSome_some, if_true]
        omega

end Finite

end Worksheet.Script
