import Mathlib
import Worksheet.Proofs.Script.Rewriting

/-!
# Reducing arguments side by side

A comma keeps what stands in front of it from what stands behind it: no name and no literal reaches
across. So a list of arguments is reduced argument by argument, and however the calls in it come
out, it has as many arguments as before.
-/

set_option autoImplicit false

namespace Worksheet

namespace Script

def beside (first second : Script) : Script :=
  first.append (second.prepend [','])

variable {call : CallValue} {limit passes : Nat}

theorem beside_plain (content : List Char) (second : Script) :
    (plain content).beside second = second.prepend (content ++ [',']) :=
  prepend_prepend content [','] second

theorem beside_group (lead : List Char) (inner rest second : Script) :
    (group lead inner rest).beside second = group lead inner (rest.beside second) :=
  rfl

theorem chars_beside (first second : Script) :
    (first.beside second).chars = first.chars ++ ',' :: second.chars := by
  rw [beside, chars_append, chars_prepend, List.singleton_append]

theorem Matched.beside {first second : Script} (matched : first.Matched false)
    (secondMatched : second.Matched false) : (first.beside second).Matched false :=
  matched.append (secondMatched.prepend rfl)

theorem keepsName_comma (content : List Char) (script : Script) :
    KeepsName (content ++ [',']) script := by
  cases script with
  | plain rest => trivial
  | group lead inner rest =>
      change callName? (content ++ [','] ++ lead) = callName? lead
      rw [callName?, callName?, List.reverse_append, List.reverse_append]
      exact nameBehind?_append_of_stops _ (stopsName_cons (by decide) _)

theorem hasCall_prepend {text : List Char} {script : Script} (keeps : KeepsName text script) :
    (script.prepend text).hasCall = script.hasCall := by
  cases script with
  | plain content => rfl
  | group lead inner rest =>
      have same : callName? (text ++ lead) = callName? lead := keeps
      simp only [prepend, hasCall, same]

theorem splice_append_text (text before : List Char) (value : Value) (rest : Script) :
    splice (text ++ before) value rest = (splice before value rest).prepend text := by
  cases value with
  | text content => simp only [splice, prepend_prepend, List.append_assoc]
  | number x =>
      simp only [splice, apply_ite (prepend text), prepend_prepend, List.append_assoc]
      rfl

theorem prepend_beside (text : List Char) (first second : Script) :
    (first.prepend text).beside second = (first.beside second).prepend text := by
  cases first with
  | plain content => rw [prepend, beside_plain, beside_plain, prepend_prepend, List.append_assoc]
  | group lead inner rest => rfl

theorem splice_beside (before : List Char) (value : Value) (rest second : Script) :
    splice before value (rest.beside second) = (splice before value rest).beside second := by
  cases value with
  | text content => exact (prepend_beside _ rest second).symm
  | number x =>
      simp only [splice, apply_ite (fun script => beside script second), prepend_beside,
        beside_group]

theorem pass_prepend {text : List Char} {script : Script} (keeps : KeepsName text script) :
    (script.prepend text).pass call = prepend text <$> script.pass call := by
  cases script with
  | plain content => rfl
  | group lead inner rest =>
      have same : callName? (text ++ lead) = callName? lead := keeps
      rw [prepend, pass, pass, same]
      cases rest.pass call with
      | error error => rfl
      | ok passedRest =>
          rw [Outcome.ok_bind, Outcome.ok_bind]
          by_cases nested : inner.hasCall = true
          · rw [if_pos nested, if_pos nested]
            cases inner.pass call <;> rfl
          rw [if_neg nested, if_neg nested]
          cases named : callName? lead with
          | none => rfl
          | some name =>
              simp only [beforeName_append named, splice_append_text]
              cases call name (Arguments.split inner.chars) <;> rfl

/-- A pass over two scripts with a comma between them is a pass over each, the second first. -/
theorem pass_beside (first second : Script) :
    (first.beside second).pass call = do
      let second' ← second.pass call
      let first' ← first.pass call
      return first'.beside second' := by
  induction first with
  | plain content =>
      rw [beside_plain, pass_prepend (keepsName_comma content second)]
      cases second.pass call with
      | error error => rfl
      | ok second' => exact congrArg Except.ok (beside_plain content second').symm
  | group lead inner rest _ ihRest =>
      rw [beside_group, pass, pass, ihRest]
      cases second.pass call with
      | error error => rfl
      | ok second' =>
          cases rest.pass call with
          | error error => rfl
          | ok rest' =>
              simp only [Outcome.ok_bind, Outcome.pure_eq]
              by_cases nested : inner.hasCall = true
              · rw [if_pos nested, if_pos nested]
                cases inner.pass call <;> rfl
              rw [if_neg nested, if_neg nested]
              cases callName? lead with
              | none => rfl
              | some name =>
                  simp only [splice_beside]
                  cases call name (Arguments.split inner.chars) <;> rfl

theorem hasCall_beside (first second : Script) :
    (first.beside second).hasCall = (first.hasCall || second.hasCall) := by
  induction first with
  | plain content =>
      rw [beside_plain, hasCall_prepend (keepsName_comma content second)]
      rfl
  | group lead inner rest _ ihRest => simp only [beside_group, hasCall, ihRest, Bool.or_assoc]

theorem callDepth_beside (first second : Script) :
    (first.beside second).callDepth = max first.callDepth second.callDepth := by
  induction first with
  | plain content =>
      rw [beside_plain, callDepth_prepend (keepsName_comma content second), callDepth,
        Nat.zero_max]
  | group lead inner rest _ ihRest => simp only [beside_group, callDepth, ihRest, max_assoc]

theorem pass_of_no_call {script : Script} (none : script.hasCall = false) :
    script.pass call = .ok script := by
  induction script with
  | plain content => rfl
  | group lead inner rest _ ihRest =>
      simp only [hasCall, Bool.or_eq_false_iff] at none
      obtain ⟨⟨nameless, innerNone⟩, restNone⟩ := none
      have unnamed : callName? lead = Option.none := by simpa using nameless
      rw [pass, ihRest restNone, Outcome.ok_bind, innerNone, if_neg Bool.false_ne_true, unnamed]
      rfl

theorem reduce_succ_eq (script : Script) :
    script.reduce call limit (passes + 1) = script.pass call >>= reduce call limit passes := by
  by_cases nested : script.hasCall = true
  · rw [reduce, if_pos nested]
  · have none : script.hasCall = false := by simpa using nested
    rw [pass_of_no_call none, Outcome.ok_bind, reduce_of_no_call none, reduce_of_no_call none]

theorem reduce_beside_eq_ok {first second residue : Script} :
    (first.beside second).reduce call limit passes = .ok residue ↔
      ∃ first' second', first.reduce call limit passes = .ok first' ∧
        second.reduce call limit passes = .ok second' ∧ residue = first'.beside second' := by
  induction passes generalizing first second with
  | zero =>
      simp only [reduce, hasCall_beside]
      cases first.hasCall <;> cases second.hasCall <;> simp [eq_comm]
  | succ passes ih =>
      simp only [reduce_succ_eq, pass_beside, Outcome.bind_eq_ok]
      constructor
      · rintro ⟨passed, ⟨second', secondPass, first', firstPass, same⟩, reduced⟩
        cases same
        obtain ⟨firstResidue, secondResidue, firstReduced, secondReduced, rfl⟩ := ih.mp reduced
        exact ⟨firstResidue, secondResidue, ⟨first', firstPass, firstReduced⟩,
          ⟨second', secondPass, secondReduced⟩, rfl⟩
      · rintro ⟨firstResidue, secondResidue, ⟨first', firstPass, firstReduced⟩,
          ⟨second', secondPass, secondReduced⟩, rfl⟩
        exact ⟨_, ⟨second', secondPass, first', firstPass, rfl⟩,
          ih.mpr ⟨_, _, firstReduced, secondReduced, rfl⟩⟩

theorem reduce_beside_of_left {first first' : Script}
    (reduced : first.reduce call limit passes = .ok first') (second : Script) :
    (first.beside second).reduce call limit passes =
      (first'.beside ·) <$> second.reduce call limit passes := by
  induction passes generalizing first second with
  | zero =>
      rw [reduce] at reduced
      split at reduced
      · cases reduced
      · rename_i none
        cases reduced
        simp only [reduce, hasCall_beside, eq_false_of_ne_true none, Bool.false_or]
        split <;> rfl
  | succ passes ih =>
      rw [reduce_succ_eq] at reduced
      obtain ⟨passed, success, reduced⟩ := Outcome.bind_eq_ok.mp reduced
      rw [reduce_succ_eq, reduce_succ_eq, pass_beside, success]
      cases second.pass call with
      | error error => rfl
      | ok passedSecond => exact ih reduced passedSecond

theorem reduce_beside_of_right {second second' : Script}
    (reduced : second.reduce call limit passes = .ok second') (first : Script) :
    (first.beside second).reduce call limit passes =
      (beside · second') <$> first.reduce call limit passes := by
  induction passes generalizing first second with
  | zero =>
      rw [reduce] at reduced
      split at reduced
      · cases reduced
      · rename_i none
        cases reduced
        simp only [reduce, hasCall_beside, eq_false_of_ne_true none, Bool.or_false]
        split <;> rfl
  | succ passes ih =>
      rw [reduce_succ_eq] at reduced
      obtain ⟨passed, success, reduced⟩ := Outcome.bind_eq_ok.mp reduced
      rw [reduce_succ_eq, reduce_succ_eq, pass_beside, success, Outcome.ok_bind]
      cases first.pass call with
      | error error => rfl
      | ok passedFirst => exact ih reduced passedFirst

theorem ofChars_comma {first rest : List Char} {left right : Script}
    (firstRead : ofChars first = .ok left) (restRead : ofChars rest = .ok right) :
    ofChars (first ++ ',' :: rest) = .ok (left.beside right) := by
  obtain ⟨leftMatched, rfl⟩ := ofChars_eq_ok.mp firstRead
  obtain ⟨rightMatched, rfl⟩ := ofChars_eq_ok.mp restRead
  exact ofChars_eq_ok.mpr ⟨leftMatched.beside rightMatched, chars_beside left right⟩

theorem exists_of_ofChars_comma {first rest : List Char} {script : Script}
    (checked : check 0 false first = .ok ())
    (read : ofChars (first ++ ',' :: rest) = .ok script) :
    ∃ left right, ofChars first = .ok left ∧ ofChars rest = .ok right ∧
      script = left.beside right := by
  have restChecked : check 0 false rest = .ok () := by
    obtain ⟨matched, chars⟩ := ofChars_eq_ok.mp read
    have whole := matched.checked
    rw [chars, check_append checked] at whole
    exact whole
  obtain ⟨left, leftRead⟩ := ofChars_of_check checked
  obtain ⟨right, rightRead⟩ := ofChars_of_check restChecked
  exact ⟨left, right, leftRead, rightRead,
    Except.ok.inj (read.symm.trans (ofChars_comma leftRead rightRead))⟩

theorem commas_reduce (finite : ReturnsFinite call) {script residue : Script}
    (matched : script.Matched false) (reduced : script.reduce call limit passes = .ok residue) :
    Arguments.commas residue.chars = Arguments.commas script.chars := by
  obtain ⟨start, lead, whole, checked, nameless, solid, atEnd⟩ :=
    exists_name_at_end matched.checked
  have flat : isFlat false lead = true := by
    rcases atEnd with ⟨rfl, _⟩ | ⟨_, named⟩
    · rfl
    · exact isFlat_of_plain (isPlain_of_name named)
  have read : ofChars (start ++ lead) = .ok script := ofChars_eq_ok.mpr ⟨matched, whole⟩
  obtain ⟨last, before, others, lastRead, split, beforeChecked, sameCommas, rewrites⟩ :=
    (rewrites_of_reduce finite reduced).of_append finite read checked nameless
  have leadRead : ofChars lead = .ok (plain lead) := ofChars_eq_ok.mpr ⟨flat, rfl⟩
  obtain rfl := Except.ok.inj (leadRead.symm.trans lastRead)
  cases rewrites
  rw [whole, split, Arguments.commas_append beforeChecked, Arguments.commas_append checked,
    sameCommas]

def Reduces (call : CallValue) (limit passes : Nat) (text result : List Char) : Prop :=
  ∃ script residue, ofChars text = .ok script ∧ script.reduce call limit passes = .ok residue ∧
    residue.chars = result

namespace Reduces

variable {text result : List Char}

theorem comma {first rest : List Char} (checked : check 0 false first = .ok ())
    (reduces : Reduces call limit passes (first ++ ',' :: rest) result) :
    ∃ first' rest', Reduces call limit passes first first' ∧ Reduces call limit passes rest rest' ∧
      result = first' ++ ',' :: rest' := by
  obtain ⟨script, residue, read, reduced, rfl⟩ := reduces
  obtain ⟨left, right, leftRead, rightRead, rfl⟩ := exists_of_ofChars_comma checked read
  obtain ⟨left', right', leftReduced, rightReduced, rfl⟩ := reduce_beside_eq_ok.mp reduced
  exact ⟨left'.chars, right'.chars, ⟨left, left', leftRead, leftReduced, rfl⟩,
    ⟨right, right', rightRead, rightReduced, rfl⟩, chars_beside left' right'⟩

variable (finite : ReturnsFinite call) (reduces : Reduces call limit passes text result)
include finite reduces

theorem checked : check 0 false result = .ok () := by
  obtain ⟨script, residue, read, reduced, rfl⟩ := reduces
  exact (matched_reduce finite (ofChars_eq_ok.mp read).1 reduced).checked

theorem commas_eq : Arguments.commas result = Arguments.commas text := by
  obtain ⟨script, residue, read, reduced, rfl⟩ := reduces
  obtain ⟨matched, rfl⟩ := ofChars_eq_ok.mp read
  exact commas_reduce finite matched reduced

theorem all_isBlank : result.all isBlank = text.all isBlank := by
  obtain ⟨script, residue, read, reduced, rfl⟩ := reduces
  obtain ⟨_, rfl⟩ := ofChars_eq_ok.mp read
  have opening : isBlank '(' = false := by decide
  have rewrites := rewrites_of_reduce finite reduced
  generalize residue.chars = result at rewrites ⊢
  cases rewrites with
  | plain => rfl
  | kept _ _ _ => simp [chars, opening]
  | replaced _ _ _ called _ =>
      have visible := (isLiteral_literal (finite _ _ _ called)).visible
      simp only [chars, List.all_append, List.all_cons, visible, opening]
      simp

end Reduces

end Script

end Worksheet
