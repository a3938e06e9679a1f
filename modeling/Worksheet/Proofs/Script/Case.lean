import Mathlib
import Worksheet.Proofs.Expression.Case
import Worksheet.Proofs.Function.Errors
import Worksheet.Proofs.Script.Reduction
import Worksheet.Proofs.Script.Literal

/-!
# Letter case in scripts

The capital form of a text is read as the script of the text in capitals, and its calls are those of
the script under names in capitals. If calls come to the same in either case, passes turn the one
into the capital form of what they turn the other into.
-/

set_option autoImplicit false

namespace Worksheet

theorem ignoresCase_isNameChar : IgnoresCase isNameChar :=
  ignoresCase_of_letters (by decide)

theorem nameBehind?_capitals (behind : List Char) :
    nameBehind? (capitals behind) = (nameBehind? behind).map capitals := by
  have name : isNameChar ∘ Char.toUpper = isNameChar := funext ignoresCase_isNameChar
  simp only [nameBehind?, capitals, List.takeWhile_map, name, ← List.map_reverse]
  cases (behind.takeWhile isNameChar).reverse with
  | nil => rfl
  | cons first rest =>
      simp only [List.map_cons, ignoresCase_isDigit first]
      split <;> rfl

theorem IsLiteral.outerCapitals_eq {literal : List Char} (isLiteral : IsLiteral literal) :
    outerCapitals false literal = literal := by
  cases isLiteral with
  | number numeric _ =>
      exact outerCapitals_eq_self
        (fun c member => Token.toUpper_of_isNumberChar (numeric c member)) false
  | @negative digits numeric =>
      refine outerCapitals_eq_self (fun c member => ?_) false
      have cases : c = '(' ∨ c = '-' ∨ c ∈ digits ∨ c = ')' := by simpa using member
      rcases cases with rfl | rfl | inside | rfl
      · decide
      · decide
      · exact Token.toUpper_of_isNumberChar (numeric c inside)
      · decide
  | text content => exact outerCapitals_quote content

namespace Arguments

def raiseParts (inside : Bool) : List (List Char) → List (List Char)
  | [] => []
  | first :: others => outerCapitals inside first :: others.map (outerCapitals false)

theorem raiseParts_extendFirst (inside : Bool) (c : Char) (list : List (List Char)) :
    raiseParts inside (extendFirst c list) = extendFirst (outerCapital inside c)
      (raiseParts (if c = '"' then !inside else inside) list) := by
  cases list <;> rfl

theorem raiseParts_false (list : List (List Char)) :
    raiseParts false list = list.map (outerCapitals false) := by
  cases list <;> rfl

theorem parts_outerCapitals (depth : Nat) (inside : Bool) (text : List Char) :
    parts depth inside (outerCapitals inside text) =
      raiseParts inside (parts depth inside text) := by
  induction text generalizing depth inside with
  | nil => rfl
  | cons c rest ih =>
      have comma : outerCapital inside c = ',' ↔ c = ',' := outerCapital_eq_iff (by decide)
      have depths : depthBehind depth inside (outerCapital inside c) = depthBehind depth inside c := by
        simp only [depthBehind, outerCapital_eq_quote, outerCapital_eq_opening,
          outerCapital_eq_closing]
      simp only [outerCapitals_cons, parts_cons, comma, depths, outerCapital_eq_quote, ih]
      split
      · rename_i separates
        obtain ⟨rfl, rfl, rfl⟩ := separates
        rw [raiseParts_false, List.map_cons, ← raiseParts_false, ← ih 0 false]
        rfl
      · rw [raiseParts_extendFirst]

theorem split_outerCapitals (text : List Char) :
    split (outerCapitals false text) = (split text).map (outerCapitals false) := by
  have trimmed : trim ∘ outerCapitals false = outerCapitals false ∘ trim :=
    funext (trim_outerCapitals false)
  unfold split
  rw [trim_outerCapitals, isEmpty_outerCapitals, parts_outerCapitals, raiseParts_false,
    List.map_map, trimmed, ← List.map_map]
  split <;> rfl

end Arguments

theorem isFlat_outerCapitals (inside : Bool) (text : List Char) :
    isFlat inside (outerCapitals inside text) = isFlat inside text := by
  induction text generalizing inside with
  | nil => rfl
  | cons c rest ih =>
      by_cases isQuote : c = '"'
      · simp only [outerCapitals_cons, isFlat, outerCapital_eq_quote, if_pos isQuote, ih]
      · simp only [outerCapitals_cons, isFlat, outerCapital_eq_quote, if_neg isQuote, ih, bne,
          beq_eq_decide, outerCapital_eq_opening, outerCapital_eq_closing]

namespace Script

theorem check_outerCapitals (depth : Nat) (inside : Bool) (text : List Char) :
    check depth inside (outerCapitals inside text) = check depth inside text := by
  induction text generalizing depth inside with
  | nil => rfl
  | cons c rest ih =>
      by_cases isQuote : c = '"'
      · simp only [outerCapitals_cons, check, outerCapital_eq_quote, if_pos isQuote, ih]
      · simp only [outerCapitals_cons, check, outerCapital_eq_quote, if_neg isQuote, ih,
          outerCapital_eq_opening, outerCapital_eq_closing]

def raised (inside : Bool) : Script → Script
  | plain content => plain (outerCapitals inside content)
  | group lead inner rest =>
      group (outerCapitals inside lead) (inner.raised false) (rest.raised false)

variable {script : Script} {inside : Bool}

theorem Matched.raised (matched : script.Matched inside) :
    (script.raised inside).Matched inside := by
  induction script generalizing inside with
  | plain content => exact (isFlat_outerCapitals inside content).trans matched
  | group lead inner rest ihInner ihRest =>
      obtain ⟨flat, innerMatched, restMatched⟩ := matched
      exact ⟨(isFlat_outerCapitals inside lead).trans flat, ihInner innerMatched,
        ihRest restMatched⟩

theorem chars_raised (matched : script.Matched inside) :
    (script.raised inside).chars = outerCapitals inside script.chars := by
  induction script generalizing inside with
  | plain content => rfl
  | group lead inner rest ihInner ihRest =>
      obtain ⟨flat, innerMatched, restMatched⟩ := matched
      have opening (text : List Char) :
          outerCapitals false ('(' :: text) = '(' :: outerCapitals false text := rfl
      have closing (text : List Char) :
          outerCapitals false (')' :: text) = ')' :: outerCapitals false text := rfl
      simp only [Script.raised, chars, List.append_assoc, List.cons_append]
      rw [outerCapitals_append, endsQuoted_of_flat flat, opening, outerCapitals_append,
        endsQuoted_chars innerMatched, closing, ihInner innerMatched, ihRest restMatched]

theorem Matched.ext {other : Script} (matched : script.Matched inside)
    (otherMatched : other.Matched inside) (same : script.chars = other.chars) : script = other := by
  have read {script : Script} (matched : script.Matched inside) :
      levels inside script.chars = [script] := by
    have levels := levels_chars matched []
    rwa [List.append_nil, Script.levels, appendFirst, append_plain_nil] at levels
  have both := (read matched).symm.trans ((congrArg (levels inside) same).trans (read otherMatched))
  exact List.singleton_inj.mp both

theorem ofChars_outerCapitals (text : List Char) :
    ofChars (outerCapitals false text) = (ofChars text).map (raised false) := by
  cases checked : check 0 false text with
  | error error =>
      have failed {text : List Char} (checked : check 0 false text = .error error) :
          ofChars text = .error error := by
        rw [ofChars, checked]
        rfl
      rw [failed checked, failed ((check_outerCapitals 0 false text).trans checked)]
      rfl
  | ok _ =>
      obtain ⟨script, read⟩ := ofChars_of_check checked
      obtain ⟨matched, rfl⟩ := ofChars_eq_ok.mp read
      rw [read]
      exact ofChars_eq_ok.mpr ⟨matched.raised, chars_raised matched⟩

/-! ## Calls and reductions -/

theorem callName?_outerCapitals (inside : Bool) (lead : List Char) :
    (callName? (outerCapitals inside lead)).map capitals = (callName? lead).map capitals := by
  have backwards (text : List Char) : capitals text.reverse = (capitals text).reverse :=
    List.map_reverse
  simp only [callName?, ← nameBehind?_capitals, backwards, capitals_outerCapitals]

theorem callName?_outerCapitals_eq_none {lead : List Char} (nameless : callName? lead = none)
    (inside : Bool) : callName? (outerCapitals inside lead) = none := by
  have names := callName?_outerCapitals inside lead
  rw [nameless, Option.map_none] at names
  exact Option.map_eq_none_iff.mp names

theorem exists_callName?_outerCapitals {lead name : List Char} (named : callName? lead = some name)
    (inside : Bool) :
    ∃ other, callName? (outerCapitals inside lead) = some other ∧ capitals other = capitals name ∧
      beforeName (outerCapitals inside lead) other =
        outerCapitals inside (beforeName lead name) := by
  have names := callName?_outerCapitals inside lead
  rw [named, Option.map_some] at names
  obtain ⟨other, found, same⟩ := Option.map_eq_some_iff.mp names
  have length : other.length = name.length := by
    have lengths := congrArg List.length same
    rwa [capitals, capitals, List.length_map, List.length_map] at lengths
  refine ⟨other, found, same, ?_⟩
  rw [beforeName, beforeName, length, length_outerCapitals, take_outerCapitals]

@[simp]
theorem hasCall_raised (inside : Bool) (script : Script) :
    (script.raised inside).hasCall = script.hasCall := by
  induction script generalizing inside with
  | plain content => rfl
  | group lead inner rest ihInner ihRest =>
      have named := congrArg Option.isSome (callName?_outerCapitals inside lead)
      rw [Option.isSome_map, Option.isSome_map] at named
      simp only [raised, hasCall, named, ihInner, ihRest]

theorem splice_raised {value : Value} (finite : value.IsFinite) {before : List Char}
    (flat : isFlat inside before = true) (matched : script.Matched false) :
    splice (outerCapitals inside before) value (script.raised false) =
      (splice before value script).raised inside := by
  have isLiteral := isLiteral_literal finite
  have flat' := (isFlat_outerCapitals inside before).trans flat
  refine Matched.ext (matched_splice finite flat' matched.raised)
    (matched_splice finite flat matched).raised ?_
  rw [chars_raised (matched_splice finite flat matched), chars_splice finite, chars_splice finite,
    chars_raised matched, List.append_assoc, List.append_assoc, outerCapitals_append,
    endsQuoted_of_flat flat, outerCapitals_append, isLiteral.closed, isLiteral.outerCapitals_eq]

end Script

/-- The call comes to the same when its name and its text are in capitals. -/
def Dispatch.IgnoresCase (call : Script.CallValue) (dispatch : Dispatch) : Prop :=
  ∀ name, capitals name = capitals dispatch.name →
    call name (Arguments.split (outerCapitals false dispatch.inner)) = dispatch.outcome call

namespace Script

variable {call : CallValue} {script : Script} {inside : Bool}

/-- A pass over a script in capitals gives the capital form of what the pass over the script
gives. -/
theorem pass_raised (finite : ReturnsFinite call) (matched : script.Matched inside)
    {before after : List Char}
    (alike : ∀ dispatch ∈ script.passDispatches call before after, dispatch.IgnoresCase call) :
    (script.raised inside).pass call = (script.pass call).map (raised inside) := by
  induction script generalizing inside before after with
  | plain content => rfl
  | group lead inner rest ihInner ihRest =>
      obtain ⟨flat, innerMatched, restMatched⟩ := matched
      unfold passDispatches at alike
      simp only [] at alike
      -- a pass begins with the rest; the calls of the group are made only if that succeeds
      cases restOutcome : rest.pass call with
      | error error =>
          rw [restOutcome] at alike
          have restRaised := ihRest restMatched alike
          rw [restOutcome] at restRaised
          simp only [raised, pass, restRaised, restOutcome]
          rfl
      | ok passed =>
          rw [restOutcome] at alike
          obtain ⟨later, here⟩ := List.forall_mem_append.mp alike
          have restRaised := ihRest restMatched later
          rw [restOutcome] at restRaised
          by_cases nested : inner.hasCall = true
          · rw [if_pos nested] at here
            have innerRaised := ihInner innerMatched here
            simp only [raised, pass, restRaised, restOutcome, hasCall_raised, nested, if_true,
              innerRaised]
            cases inner.pass call <;> rfl
          · rw [if_neg nested] at here
            cases named : callName? lead with
            | none =>
                have unnamed := callName?_outerCapitals_eq_none named inside
                simp only [raised, pass, restRaised, restOutcome, hasCall_raised, nested, named,
                  unnamed]
                rfl
            | some name =>
                rw [named] at here
                obtain ⟨other, otherNamed, same, front⟩ :=
                  exists_callName?_outerCapitals named inside
                have called := here _ (List.mem_singleton_self _) other same
                rw [← chars_raised innerMatched] at called
                simp only [raised, pass, restRaised, restOutcome, hasCall_raised, nested, named,
                  otherNamed, called, front, Dispatch.outcome]
                cases outcome : call name (Arguments.split inner.chars) with
                | error error => rfl
                | ok value =>
                    have passedMatched := matched_pass finite restMatched restOutcome
                    exact congrArg Except.ok (splice_raised (finite _ _ _ outcome)
                      (isFlat_beforeName flat named) passedMatched)

theorem reduce_raised (finite : ReturnsFinite call) {limit passes : Nat}
    (matched : script.Matched false)
    (alike : ∀ dispatch ∈ script.dispatches call passes, dispatch.IgnoresCase call) :
    (script.raised false).reduce call limit passes =
      (script.reduce call limit passes).map (raised false) := by
  induction passes generalizing script with
  | zero =>
      rw [reduce, reduce, hasCall_raised]
      split <;> rfl
  | succ passes ih =>
      rw [reduce, reduce, hasCall_raised]
      split
      · rename_i calls
        rw [dispatches, if_pos calls] at alike
        obtain ⟨here, later⟩ := List.forall_mem_append.mp alike
        rw [pass_raised finite matched here]
        cases outcome : script.pass call with
        | error error => rfl
        | ok passed =>
            rw [outcome] at later
            exact ih (matched_pass finite matched outcome) later
      · rfl

theorem reduceText_outerCapitals (finite : ReturnsFinite call) {limit : Nat} {text : List Char}
    (alike : ∀ script, ofChars text = .ok script →
      ∀ dispatch ∈ script.dispatches call limit, dispatch.IgnoresCase call) :
    reduceText call limit (outerCapitals false text) =
      (reduceText call limit text).map (outerCapitals false) := by
  rw [reduceText, reduceText, ofChars_outerCapitals]
  cases read : ofChars text with
  | error error => rfl
  | ok script =>
      obtain ⟨matched, _⟩ := ofChars_eq_ok.mp read
      have reduced := @reduce_raised call script finite limit limit matched (alike script read)
      simp only [Except.map, Outcome.ok_bind, reduced]
      cases outcome : script.reduce call limit limit with
      | error error => rfl
      | ok residue =>
          exact congrArg Except.ok (chars_raised (matched_reduce finite matched outcome))

end Script

end Worksheet
