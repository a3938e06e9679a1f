import Mathlib
import Worksheet.Proofs.Script.Dispatch

/-!
# The calls written in a text

`callNames` lists the names in front of the parentheses of a text that stand outside its literals.
Replacing a call by a literal takes its own name from the list, and at most names behind the call
that the digits of the literal run into; no name is added or changed.
-/

set_option autoImplicit false

namespace Worksheet

/-- The names in front of the opening parentheses outside literals, in order. The flag tells
whether the text starts inside a literal; what stands in front of it is given backwards. -/
def callNamesFrom (inside : Bool) (behind : List Char) : List Char → List (List Char)
  | [] => []
  | c :: rest =>
      (if c = '(' ∧ inside = false then (nameBehind? behind).toList else []) ++
        callNamesFrom (if c = '"' then !inside else inside) (c :: behind) rest

def callNames (text : List Char) : List (List Char) :=
  callNamesFrom false [] text

theorem callNamesFrom_append (inside : Bool) (behind first second : List Char) :
    callNamesFrom inside behind (first ++ second) =
      callNamesFrom inside behind first ++
        callNamesFrom (endsQuoted inside first) (first.reverse ++ behind) second := by
  induction first generalizing inside behind with
  | nil => rfl
  | cons c rest ih => simp [callNamesFrom, endsQuoted, ih]

theorem callNamesFrom_opening (behind rest : List Char) :
    callNamesFrom false behind ('(' :: rest) =
      (nameBehind? behind).toList ++ callNamesFrom false ('(' :: behind) rest := by
  simp [callNamesFrom]

theorem callNamesFrom_closing (behind rest : List Char) :
    callNamesFrom false behind (')' :: rest) = callNamesFrom false (')' :: behind) rest := by
  simp [callNamesFrom]

theorem stopsName_opening (behind : List Char) : StopsName ('(' :: behind) :=
  stopsName_cons (by decide) behind

theorem stopsName_closing (behind : List Char) : StopsName (')' :: behind) :=
  stopsName_cons (by decide) behind

theorem callNamesFrom_of_flat {inside : Bool} {text : List Char}
    (flat : isFlat inside text = true) (behind : List Char) :
    callNamesFrom inside behind text = [] := by
  induction flat using isFlat_induction generalizing behind with
  | nil => rfl
  | quote inside rest _ ih => simpa [callNamesFrom] using ih _
  | within c rest notQuote _ ih => simpa [callNamesFrom, notQuote] using ih _
  | without c rest notQuote notOpening _ _ ih =>
      simpa [callNamesFrom, notQuote, notOpening] using ih _

theorem callNamesFrom_of_stops {behind : List Char} (stops : StopsName behind) (inside : Bool)
    (text : List Char) : callNamesFrom inside behind text = callNamesFrom inside [] text := by
  have shared (near : List Char) :
      callNamesFrom inside (near ++ behind) text = callNamesFrom inside near text := by
    induction text generalizing inside near with
    | nil => rfl
    | cons c rest ih =>
        rw [callNamesFrom, callNamesFrom, nameBehind?_append_of_stops near stops, ← List.cons_append,
          ih]
  exact shared []

theorem callNamesFrom_of_no_call {script : Script} {inside : Bool}
    (matched : script.Matched inside) (none : script.hasCall = false) {behind : List Char}
    (stops : StopsName behind) : callNamesFrom inside behind script.chars = [] := by
  induction script generalizing inside behind with
  | plain content => exact callNamesFrom_of_flat matched behind
  | group lead inner rest ihInner ihRest =>
      obtain ⟨flat, innerMatched, restMatched⟩ := matched
      simp only [Script.hasCall, Bool.or_eq_false_iff] at none
      obtain ⟨⟨nameless, innerNone⟩, restNone⟩ := none
      have unnamed : nameBehind? (lead.reverse ++ behind) = Option.none := by
        rw [nameBehind?_append_of_stops _ stops]
        simpa [Script.callName?] using nameless
      simp only [Script.chars, List.append_assoc, List.cons_append]
      rw [callNamesFrom_append, callNamesFrom_of_flat flat, endsQuoted_of_flat flat,
        callNamesFrom_opening, unnamed, callNamesFrom_append,
        ihInner innerMatched innerNone (stopsName_opening _), Script.endsQuoted_chars innerMatched,
        callNamesFrom_closing, ihRest restMatched restNone (stopsName_closing _)]
      rfl

theorem hasCall_of_no_names {script : Script} {inside : Bool} (matched : script.Matched inside)
    {behind : List Char} (stops : StopsName behind)
    (none : callNamesFrom inside behind script.chars = []) : script.hasCall = false := by
  induction script generalizing inside behind with
  | plain content => rfl
  | group lead inner rest ihInner ihRest =>
      obtain ⟨flat, innerMatched, restMatched⟩ := matched
      simp only [Script.chars, List.append_assoc, List.cons_append] at none
      rw [callNamesFrom_append, callNamesFrom_of_flat flat, endsQuoted_of_flat flat,
        callNamesFrom_opening, callNamesFrom_append, Script.endsQuoted_chars innerMatched,
        callNamesFrom_closing] at none
      simp only [List.nil_append, List.append_eq_nil_iff] at none
      obtain ⟨nameless, innerNone, restNone⟩ := none
      have unnamed : Script.callName? lead = Option.none := by
        rw [Script.callName?, ← nameBehind?_append_of_stops _ stops]
        simpa using nameless
      simp [Script.hasCall, unnamed, ihInner innerMatched (stopsName_opening _) innerNone,
        ihRest restMatched (stopsName_closing _) restNone]

theorem Script.ofChars_call {name inner : List Char} {script : Script}
    (named : Script.callName? name = some name) (read : Script.ofChars inner = .ok script) :
    Script.ofChars (name ++ '(' :: (inner ++ [')'])) = .ok (.group name script (.plain [])) := by
  obtain ⟨matched, rfl⟩ := Script.ofChars_eq_ok.mp read
  have flat : isFlat false name = true := isFlat_of_plain (isPlain_of_name named)
  exact Script.ofChars_eq_ok.mpr ⟨⟨flat, matched, rfl⟩, by simp [Script.chars]⟩

/-- A text that can stand in the place of a call or a reference: a matched script in which no name
is called, as long as none ends in front of it. -/
structure IsOperandText (literal : List Char) : Prop where
  read : ∃ script, Script.ofChars literal = .ok script
  calls_none : ∀ behind, nameBehind? behind = none → callNamesFrom false behind literal = []

theorem isOperandText_of_flat {literal : List Char} (flat : isFlat false literal = true) :
    IsOperandText literal :=
  ⟨⟨.plain literal, Script.ofChars_eq_ok.mpr ⟨flat, rfl⟩⟩,
    fun behind _ => callNamesFrom_of_flat flat behind⟩

theorem isOperandText_group {inner : List Char} (flat : isFlat false inner = true) :
    IsOperandText ('(' :: (inner ++ [')'])) := by
  refine ⟨⟨.group [] (.plain inner) (.plain []), ?_⟩, fun behind nameless => ?_⟩
  · exact Script.ofChars_eq_ok.mpr ⟨⟨rfl, flat, rfl⟩, by simp [Script.chars]⟩
  · simp [callNamesFrom, nameless, callNamesFrom_append, callNamesFrom_of_flat flat]

theorem IsOperandText.endsQuoted_eq {literal : List Char} (operand : IsOperandText literal) :
    endsQuoted false literal = false := by
  obtain ⟨script, read⟩ := operand.read
  obtain ⟨matched, rfl⟩ := Script.ofChars_eq_ok.mp read
  exact Script.endsQuoted_chars matched

theorem IsOperandText.exists_script {literal : List Char} (operand : IsOperandText literal) :
    ∃ script : Script, script.Matched false ∧ script.chars = literal ∧ script.hasCall = false := by
  obtain ⟨script, read⟩ := operand.read
  obtain ⟨matched, rfl⟩ := Script.ofChars_eq_ok.mp read
  have stops : StopsName ['('] := stopsName_opening []
  exact ⟨script, matched, rfl,
    hasCall_of_no_names matched stops (operand.calls_none _ stops.nameBehind?_eq)⟩

theorem IsOperandText.check_eq {literal : List Char} (operand : IsOperandText literal)
    (depth : Nat) (suffix : List Char) :
    Script.check depth false (literal ++ suffix) = Script.check depth false suffix := by
  obtain ⟨script, read⟩ := operand.read
  obtain ⟨matched, rfl⟩ := Script.ofChars_eq_ok.mp read
  exact Script.check_chars matched suffix

theorem IsOperandText.callNamesFrom_eq {literal : List Char} (operand : IsOperandText literal)
    {behind : List Char} (nameless : nameBehind? behind = none) (suffix : List Char) :
    callNamesFrom false behind (literal ++ suffix) =
      callNamesFrom false (literal.reverse ++ behind) suffix := by
  rw [callNamesFrom_append, operand.calls_none behind nameless, operand.endsQuoted_eq,
    List.nil_append]

theorem isOperandText_numberLiteral {x : Float} (finite : x.isFinite = true) :
    IsOperandText (numberLiteral x) := by
  have shape := isDigits_unsignedDigits (x + 0.0)
  rcases numberLiteral_cases finite with ⟨_, literal⟩ | ⟨_, literal⟩
  · rw [literal]
    obtain ⟨_, _, _, _, numeric⟩ := shape
    exact isOperandText_group (isFlat_negative numeric)
  · rw [literal]
    exact isOperandText_of_flat (isPlainLiteral_digits shape).flat

theorem isOperandText_literal {value : Value} (finite : value.IsFinite) :
    IsOperandText value.literal := by
  cases value with
  | number x => exact isOperandText_numberLiteral finite
  | text content => exact isOperandText_of_flat (isFlat_quoted content)

theorem nameBehind?_literal {value : Value} (finite : value.IsFinite) {behind : List Char}
    (stops : StopsName behind) : nameBehind? (value.literal.reverse ++ behind) = none := by
  rcases Script.splice_cases finite [] (.plain []) with ⟨plain, _⟩ | ⟨inner, _, literal, _⟩
  · exact plain.nameless behind stops
  · have reversed : value.literal.reverse = ')' :: (inner.reverse ++ ['(']) := by
      simp [literal]
    rw [reversed]
    exact (stopsName_closing _).nameBehind?_eq

/-! ## Replacing a call -/

theorem callNamesFrom_sublist (inside : Bool) (near text : List Char) {nameless stopped : List Char}
    (none : nameBehind? nameless = none) (stops : StopsName stopped) :
    (callNamesFrom inside (near ++ nameless) text).Sublist
      (callNamesFrom inside (near ++ stopped) text) := by
  induction text generalizing inside near with
  | nil => exact List.Sublist.refl _
  | cons c rest ih =>
      refine List.Sublist.append ?_ (ih _ (c :: near))
      split
      · rw [nameBehind?_append_of_stops near stops]
        rcases nameBehind?_append_of_none near none with same | ⟨gone, _⟩
        · rw [same]
        · rw [gone]
          exact List.nil_sublist _
      · exact List.Sublist.refl _

/-- What a call looks like when it is made: its name is the one directly in front of its
parenthesis, no call stands inside it, and it stands outside literals. -/
structure Dispatch.IsCall (dispatch : Dispatch) : Prop where
  named : nameBehind? dispatch.name.reverse = some dispatch.name
  stops : StopsName dispatch.before.reverse
  outside : endsQuoted false dispatch.before = false
  inner_read : ∃ script, Script.ofChars dispatch.inner = .ok script ∧ script.hasCall = false

namespace Dispatch

variable {dispatch : Dispatch} {value : Value}

theorem IsCall.flat_name (isCall : dispatch.IsCall) : isFlat false dispatch.name = true :=
  isFlat_of_plain (isPlain_of_name isCall.named)

theorem IsCall.callNames_text (isCall : dispatch.IsCall) :
    ∃ behind, callNames dispatch.text =
      callNames dispatch.before ++ dispatch.name ::
        callNamesFrom false (')' :: behind) dispatch.after := by
  obtain ⟨script, read, noCall⟩ := isCall.inner_read
  obtain ⟨matched, chars⟩ := Script.ofChars_eq_ok.mp read
  have own : nameBehind? (dispatch.name.reverse ++ dispatch.before.reverse) = some dispatch.name :=
    (nameBehind?_append_of_stops _ isCall.stops).trans isCall.named
  have inner (behind : List Char) : callNamesFrom false ('(' :: behind) dispatch.inner = [] :=
    chars ▸ callNamesFrom_of_no_call matched noCall (stopsName_opening behind)
  have innerOutside : endsQuoted false dispatch.inner = false := chars ▸ Script.endsQuoted_chars matched
  refine ⟨dispatch.inner.reverse ++ '(' :: (dispatch.name.reverse ++ dispatch.before.reverse), ?_⟩
  simp only [callNames, text, List.append_assoc, List.cons_append]
  rw [callNamesFrom_append, isCall.outside, List.append_nil, callNamesFrom_append,
    callNamesFrom_of_flat isCall.flat_name, endsQuoted_of_flat isCall.flat_name,
    callNamesFrom_opening, own, callNamesFrom_append, inner, innerOutside,
    callNamesFrom_closing]
  rfl

theorem IsCall.callNames_replaced (isCall : dispatch.IsCall) (finite : value.IsFinite) :
    callNames (dispatch.replaced value) =
      callNames dispatch.before ++
        callNamesFrom false (value.literal.reverse ++ dispatch.before.reverse) dispatch.after := by
  rw [replaced, callNames, List.append_assoc, callNamesFrom_append, isCall.outside,
    (isOperandText_literal finite).callNamesFrom_eq, List.append_nil]
  · rfl
  · rw [List.append_nil]
    exact isCall.stops.nameBehind?_eq

theorem IsCall.callNames_sublist (isCall : dispatch.IsCall) (finite : value.IsFinite) :
    (callNames (dispatch.replaced value)).Sublist (callNames dispatch.text) ∧
      (callNames (dispatch.replaced value)).length < (callNames dispatch.text).length := by
  obtain ⟨behind, text⟩ := isCall.callNames_text
  have nameless := nameBehind?_literal finite isCall.stops
  have fewer := callNamesFrom_sublist false [] dispatch.after nameless (stopsName_closing behind)
  rw [text, isCall.callNames_replaced finite]
  refine ⟨List.Sublist.append (List.Sublist.refl _) (List.Sublist.cons _ fewer), ?_⟩
  have shorter := fewer.length_le
  simp only [List.nil_append] at shorter
  simp only [List.length_append, List.length_cons]
  omega

theorem check_congr {first second : List Char}
    (same : ∀ depth, Script.check depth false first = Script.check depth false second)
    {inside : Bool} {front : List Char} (outside : endsQuoted inside front = false)
    (depth : Nat) :
    Script.check depth inside (front ++ first) = Script.check depth inside (front ++ second) := by
  induction front generalizing inside depth with
  | nil =>
      rw [endsQuoted] at outside
      rw [outside]
      exact same depth
  | cons c rest ih =>
      rw [endsQuoted] at outside
      simp only [List.cons_append, Script.check]
      split
      · rename_i isQuote
        rw [if_pos isQuote] at outside
        exact ih outside _
      · rename_i notQuote
        rw [if_neg notQuote] at outside
        simp only [ih outside]

theorem IsCall.ofChars_replaced (isCall : dispatch.IsCall) (finite : value.IsFinite)
    (read : ∃ script, Script.ofChars dispatch.text = .ok script) :
    ∃ script, Script.ofChars (dispatch.replaced value) = .ok script := by
  obtain ⟨inner, innerRead, _⟩ := isCall.inner_read
  obtain ⟨innerMatched, innerChars⟩ := Script.ofChars_eq_ok.mp innerRead
  have callMatched : (Script.group dispatch.name inner (.plain [])).Matched false :=
    ⟨isCall.flat_name, innerMatched, rfl⟩
  have same (depth : Nat) :
      Script.check depth false (dispatch.name ++ '(' :: dispatch.inner ++ ')' :: dispatch.after) =
        Script.check depth false (value.literal ++ dispatch.after) := by
    have skipped := @Script.check_chars depth false _ callMatched dispatch.after
    simp only [Script.chars, innerChars, List.append_assoc, List.cons_append, List.nil_append]
      at skipped
    rw [(isOperandText_literal finite).check_eq, ← skipped, List.append_assoc, List.cons_append]
  obtain ⟨script, textRead⟩ := read
  have checked : Script.check 0 false dispatch.text = .ok () := by
    obtain ⟨matched, chars⟩ := Script.ofChars_eq_ok.mp textRead
    have whole := @Script.check_chars 0 false _ matched []
    rw [List.append_nil, chars] at whole
    exact whole
  apply Script.ofChars_of_check
  rw [replaced, List.append_assoc, ← check_congr same isCall.outside 0, ← checked, text]
  simp only [List.append_assoc, List.cons_append]

end Dispatch

/-! ## The run of a reduction -/

namespace Script

variable {call : CallValue}

/-- Calls made on a text one after the other, each on what the last one left, up to the first
that fails. -/
def IsRun (call : CallValue) : List Char → List Dispatch → Prop
  | _, [] => True
  | text, dispatch :: later =>
      dispatch.text = text ∧
        match dispatch.outcome call with
        | .ok value => IsRun call (dispatch.replaced value) later
        | .error _ => later = []

/-- Calls that all succeed and lead from a text to another. -/
def Leads (call : CallValue) : List Char → List Dispatch → List Char → Prop
  | start, [], finish => start = finish
  | start, dispatch :: later, finish =>
      dispatch.text = start ∧
        ∃ value, dispatch.outcome call = .ok value ∧
          Leads call (dispatch.replaced value) later finish

theorem Leads.append {start middle finish : List Char} {earlier later : List Dispatch}
    (first : Leads call start earlier middle) (second : Leads call middle later finish) :
    Leads call start (earlier ++ later) finish := by
  induction earlier generalizing start with
  | nil =>
      rw [Leads] at first
      rw [first]
      exact second
  | cons dispatch more ih =>
      obtain ⟨same, value, success, first⟩ := first
      exact ⟨same, value, success, ih first⟩

theorem Leads.isRun_append {start middle : List Char} {earlier later : List Dispatch}
    (first : Leads call start earlier middle) (second : IsRun call middle later) :
    IsRun call start (earlier ++ later) := by
  induction earlier generalizing start with
  | nil =>
      rw [Leads] at first
      rw [first]
      exact second
  | cons dispatch more ih =>
      obtain ⟨same, value, success, first⟩ := first
      refine ⟨same, ?_⟩
      rw [success]
      exact ih first

theorem text_of_group (before after lead : List Char) (inner rest : Script) :
    before ++ (group lead inner rest).chars ++ after =
      (before ++ lead ++ '(' :: inner.chars ++ [')']) ++ rest.chars ++ after := by
  simp [chars]

section Finite

variable (finite : ReturnsFinite call)
include finite

theorem leads_passDispatches {script passed : Script} (success : script.pass call = .ok passed)
    (before after : List Char) :
    Leads call (before ++ script.chars ++ after) (script.passDispatches call before after)
      (before ++ passed.chars ++ after) := by
  rw [pass_eq_ok] at success
  induction success generalizing before after with
  | plain content => rfl
  | inward nested _ restPasses ihInner ihRest =>
      rw [text_of_group, passDispatches]
      simp only [pass_eq_ok.mpr restPasses, nested, if_true]
      refine (ihRest _ _).append ?_
      simpa [chars] using ihInner (before ++ _ ++ ['(']) (')' :: _ ++ after)
  | kept leaf nameless restPasses ihRest =>
      rw [text_of_group, passDispatches]
      simp only [pass_eq_ok.mpr restPasses, leaf, Bool.false_eq_true, if_false, nameless]
      refine (ihRest _ _).append ?_
      simp [Leads, chars]
  | @replaced lead name _ _ _ value leaf named called restPasses ihRest =>
      rw [text_of_group, passDispatches]
      simp only [pass_eq_ok.mpr restPasses, leaf, Bool.false_eq_true, if_false, named]
      refine (ihRest _ _).append ⟨?_, value, called, ?_⟩
      · conv_rhs => rw [(lead_eq_of_callName? named).1]
        simp [Dispatch.text]
      · simp [Leads, Dispatch.replaced, chars_splice (finite _ _ _ called)]

/-- The calls of a pass follow one another, also when one of them fails. -/
theorem isRun_passDispatches (script : Script) (before after : List Char) :
    IsRun call (before ++ script.chars ++ after) (script.passDispatches call before after) := by
  induction script generalizing before after with
  | plain content => trivial
  | group lead inner rest ihInner ihRest =>
      unfold passDispatches
      simp only []
      cases outcome : rest.pass call with
      | error error =>
          rw [text_of_group]
          exact ihRest _ _
      | ok passedRest =>
          rw [text_of_group]
          refine (leads_passDispatches finite outcome _ _).isRun_append ?_
          by_cases nested : inner.hasCall = true
          · rw [if_pos nested]
            have run := ihInner (before ++ lead ++ ['(']) (')' :: passedRest.chars ++ after)
            simpa [chars] using run
          · rw [if_neg nested]
            cases named : callName? lead with
            | none => trivial
            | some name =>
                have whole := (lead_eq_of_callName? named).1
                refine ⟨?_, ?_⟩
                · conv_rhs => rw [whole]
                  simp [Dispatch.text]
                · split
                  · trivial
                  · rfl

theorem isRun_dispatches (passes : Nat) (script : Script) :
    IsRun call script.chars (script.dispatches call passes) := by
  induction passes generalizing script with
  | zero => trivial
  | succ passes ih =>
      unfold dispatches
      split
      · cases outcome : script.pass call with
        | error error =>
            have run := isRun_passDispatches finite script [] []
            simpa using run
        | ok passed =>
            have leads := leads_passDispatches finite outcome [] []
            simp only [List.nil_append, List.append_nil] at leads
            exact leads.isRun_append (ih passed)
      · trivial

theorem leads_dispatches {passes limit : Nat} {script residue : Script}
    (success : script.reduce call limit passes = .ok residue) :
    Leads call script.chars (script.dispatches call passes) residue.chars := by
  rw [reduce_eq_ok] at success
  induction success with
  | done none passes => cases passes <;> simp [dispatches, none, Leads]
  | step calls success _ ih =>
      have leads := leads_passDispatches finite success [] []
      simp only [List.nil_append, List.append_nil] at leads
      rw [dispatches, if_pos calls, success]
      exact leads.append ih

omit finite in
theorem isCall_of_named {before after lead name : List Char} {inner : Script}
    (named : callName? lead = some name) (flat : isFlat false lead = true)
    (matched : inner.Matched false) (none : inner.hasCall = false)
    (outside : endsQuoted false before = false) (stops : StopsName before.reverse) :
    Dispatch.IsCall ⟨before ++ beforeName lead name, name, inner.chars, after⟩ := by
  obtain ⟨_, leadStops⟩ := lead_eq_of_callName? named
  constructor
  · exact callName?_name named
  · change StopsName (before ++ beforeName lead name).reverse
    rw [List.reverse_append]
    cases front : (beforeName lead name).reverse with
    | nil => exact stops
    | cons c rest =>
        rw [front] at leadStops
        exact stopsName_cons (leadStops c rfl) _
  · change endsQuoted false (before ++ beforeName lead name) = false
    rw [endsQuoted_append, outside, endsQuoted_of_flat (isFlat_beforeName flat named)]
  · exact ⟨inner, ofChars_eq_ok.mpr ⟨matched, rfl⟩, none⟩

omit finite in
theorem isCall_of_mem_passDispatches {script : Script} {before after : List Char}
    (matched : script.Matched false) (outside : endsQuoted false before = false)
    (stops : StopsName before.reverse) {dispatch : Dispatch}
    (member : dispatch ∈ script.passDispatches call before after) : dispatch.IsCall := by
  induction script generalizing before after with
  | plain content => simp [passDispatches] at member
  | group lead inner rest ihInner ihRest =>
      obtain ⟨flat, innerMatched, restMatched⟩ := matched
      have leadOutside : endsQuoted false (before ++ lead) = false := by
        rw [endsQuoted_append, outside, endsQuoted_of_flat flat]
      have innerOutside : endsQuoted false (before ++ lead ++ ['(']) = false := by
        rw [endsQuoted_append, leadOutside]
        rfl
      have restOutside :
          endsQuoted false (before ++ lead ++ '(' :: inner.chars ++ [')']) = false := by
        rw [List.append_assoc, List.cons_append, ← List.singleton_append, ← List.append_assoc,
          endsQuoted_append, innerOutside, endsQuoted_append, Script.endsQuoted_chars innerMatched]
        rfl
      have inRest (found : dispatch ∈ rest.passDispatches call
          (before ++ lead ++ '(' :: inner.chars ++ [')']) after) : dispatch.IsCall :=
        ihRest restMatched restOutside (by simpa using stopsName_closing _) found
      unfold passDispatches at member
      simp only [] at member
      cases outcome : rest.pass call with
      | error error =>
          rw [outcome] at member
          exact inRest member
      | ok passedRest =>
          rw [outcome] at member
          rcases List.mem_append.mp member with member | member
          · exact inRest member
          · by_cases nested : inner.hasCall = true
            · rw [if_pos nested] at member
              exact ihInner innerMatched innerOutside (by simpa using stopsName_opening _) member
            · rw [if_neg nested] at member
              cases named : callName? lead with
              | none => simp [named] at member
              | some name =>
                  simp only [named, List.mem_singleton] at member
                  subst member
                  exact isCall_of_named named flat innerMatched (by simpa using nested) outside
                    stops

theorem isCall_of_mem_dispatches {passes : Nat} {script : Script}
    (matched : script.Matched false) {dispatch : Dispatch}
    (member : dispatch ∈ script.dispatches call passes) : dispatch.IsCall := by
  induction passes generalizing script with
  | zero => simp [dispatches] at member
  | succ passes ih =>
      unfold dispatches at member
      split at member
      · rcases List.mem_append.mp member with member | member
        · refine isCall_of_mem_passDispatches matched ?_ ?_ member
          · rfl
          · exact stopsName_nil
        · cases outcome : script.pass call with
          | error error => simp [outcome] at member
          | ok passed =>
              rw [outcome] at member
              exact ih (matched_pass finite matched outcome) member
      · simp at member

omit finite in
/-- A run makes no more calls than are written in the text it starts on, if each call takes its
own name away. -/
theorem length_le_of_isRun {start : List Char} {log : List Dispatch} (run : IsRun call start log)
    (fewer : ∀ dispatch ∈ log, ∀ value, dispatch.outcome call = .ok value →
      (callNames (dispatch.replaced value)).length < (callNames dispatch.text).length)
    (some : ∀ dispatch ∈ log, callNames dispatch.text ≠ []) :
    log.length ≤ (callNames start).length := by
  induction log generalizing start with
  | nil => exact Nat.zero_le _
  | cons dispatch later ih =>
      obtain ⟨rfl, run⟩ := run
      cases outcome : dispatch.outcome call with
      | error error =>
          rw [outcome] at run
          rw [run]
          exact List.length_pos_iff.mpr (some dispatch List.mem_cons_self)
      | ok value =>
          rw [outcome] at run
          have rest := ih run (fun other member => fewer other (List.mem_cons_of_mem _ member))
            (fun other member => some other (List.mem_cons_of_mem _ member))
          have less := fewer dispatch List.mem_cons_self value outcome
          rw [List.length_cons]
          omega

theorem reads_of_isRun {start : List Char} {log : List Dispatch} (run : IsRun call start log)
    (isCall : ∀ dispatch ∈ log, dispatch.IsCall) (read : ∃ script, ofChars start = .ok script) :
    ∀ dispatch ∈ log, (∃ before, ofChars dispatch.text = .ok before) ∧
      ∀ value, dispatch.outcome call = .ok value →
        ∃ after, ofChars (dispatch.replaced value) = .ok after := by
  induction log generalizing start with
  | nil => simp
  | cons dispatch later ih =>
      obtain ⟨rfl, run⟩ := run
      have replacedRead {value : Value} (outcome : dispatch.outcome call = .ok value) :
          ∃ after, ofChars (dispatch.replaced value) = .ok after :=
        (isCall dispatch List.mem_cons_self).ofChars_replaced (finite _ _ _ outcome) read
      intro other member
      rcases List.mem_cons.mp member with rfl | member
      · exact ⟨read, fun value outcome => replacedRead outcome⟩
      · cases outcome : dispatch.outcome call with
        | error error =>
            rw [outcome] at run
            rw [run] at member
            cases member
        | ok value =>
            rw [outcome] at run
            exact ih run (fun other member => isCall other (List.mem_cons_of_mem _ member))
              (replacedRead outcome) other member

end Finite

end Script

end Worksheet
