import Mathlib
import Worksheet.Proofs.Expression.Jammed
import Worksheet.Proofs.Function.Errors

/-!
# Jammed arguments

Where a text is jammed, the commas in front of the jam tell which argument it spoils. A call fails
on it, unless the call takes its arguments as text or leaves this one out.
-/

set_option autoImplicit false

namespace Worksheet

/-- The text is jammed behind so many of its separating commas. -/
def JammedAt (place : Nat) (text : List Char) : Prop :=
  ∃ before core after, text = before ++ core ++ after ∧ Script.check 0 false before = .ok () ∧
    Arguments.commas before = place ∧ Arguments.IsSolid core ∧ IsJammed core

namespace JammedAt

variable {place : Nat} {text : List Char}

theorem behind (jammed : JammedAt place text) {front : List Char}
    (checked : Script.check 0 false front = .ok ()) :
    JammedAt (Arguments.commas front + place) (front ++ text) := by
  obtain ⟨before, core, after, rfl, beforeChecked, rfl, solid, isJammed⟩ := jammed
  refine ⟨front ++ before, core, after, by simp, ?_, Arguments.commas_append checked before, solid,
    isJammed⟩
  rw [Script.check_append checked, beforeChecked]

theorem isJammed (jammed : JammedAt place text) : IsJammed text := by
  obtain ⟨before, core, after, rfl, checked, _, _, isJammed⟩ := jammed
  exact isJammed.within (Script.endsQuoted_of_check checked) after

theorem group (jammed : JammedAt place text) (checked : Script.check 0 false text = .ok ())
    (back : List Char) : JammedAt 0 ('(' :: (text ++ ')' :: back)) := by
  have inner : IsJammed (['('] ++ text ++ [')']) :=
    jammed.isJammed.within (by decide) [')']
  exact ⟨[], '(' :: (text ++ [')']), back, by simp, rfl, rfl, Arguments.isSolid_group checked, inner⟩

theorem exists_argument (jammed : JammedAt place text) :
    ∃ part, (Arguments.split text)[place]? = some (trim part) ∧ IsJammed part := by
  have nonempty : (trim text).isEmpty = false := by
    have present := jammed.isJammed.isMissing_trim
    cases trimmed : trim text with
    | nil =>
        rw [trimmed] at present
        cases present
    | cons c rest => rfl
  obtain ⟨before, core, after, rfl, checked, rfl, solid, isJammed⟩ := jammed
  have length : (Arguments.parts 0 false before).length = Arguments.commas before + 1 := by
    have positive := List.length_pos_iff.mpr (Arguments.parts_ne_nil 0 false before)
    rw [Arguments.commas]
    omega
  obtain ⟨last, member, first, found⟩ :=
    Arguments.getElem?_joinParts length core (Arguments.parts_ne_nil 0 false after)
  have parts : Arguments.parts 0 false (before ++ core ++ after) =
      Arguments.joinParts (Arguments.parts 0 false before)
        (Arguments.extendText core (Arguments.parts 0 false after)) := by
    rw [List.append_assoc, Arguments.parts_append checked, solid]
  have lastClosed : endsQuoted false last = false := by
    obtain ⟨head, others, same, headClosed, othersClosed⟩ :=
      @Arguments.closed_parts 0 false before (Script.endsQuoted_of_check checked)
    rw [same] at member
    rcases List.mem_cons.mp member with rfl | later
    · exact headClosed
    · exact othersClosed last later
  refine ⟨last ++ core ++ first, ?_, isJammed.within lastClosed first⟩
  rw [Arguments.split, nonempty, parts]
  simp [found]

theorem call_fails (jammed : JammedAt place text) (settings : Settings) {name : List Char}
    (notText : capitals name ≠ "CONCAT".toList)
    (taken : capitals name = Library.branchFunction →
      ¬ Library.LeavesOut (Arguments.split text) place) :
    ∃ error, Registry.standard.call settings name (Arguments.split text) = .error error := by
  obtain ⟨part, found, isJammed⟩ := jammed.exists_argument
  exact Registry.call_standard_fails found isJammed.isMissing_trim isJammed.valueOf_trim_fails notText
    taken

end JammedAt

theorem jammedAt_of_name {name : List Char} (named : Script.callName? name = some name)
    (after : List Char) : JammedAt 0 (name ++ after) := by
  have members : ∀ c ∈ name, isNameChar c = true := fun c => isNameChar_of_mem_name named
  refine ⟨[], name, after, rfl, rfl, rfl, Arguments.isSolid_name members, ?_⟩
  have letter : ∃ first rest, name = first :: rest ∧ first.isDigit = false := by
    unfold Script.callName? nameBehind? at named
    split at named
    · cases named
    · rename_i first rest _
      split at named
      · cases named
      · rename_i letter
        exact ⟨first, rest, (Option.some.inj named).symm, by simpa using letter⟩
  obtain ⟨first, rest, rfl, letter⟩ := letter
  exact @IsJammed.word [] first rest rfl (members first List.mem_cons_self) letter

theorem jammedAt_of_literals {left right : List Char} (first : IsLiteral left)
    (second : IsLiteral right) (apart : ∀ token, Token.ofText (left ++ right) ≠ .ok [token])
    (after : List Char) : JammedAt 0 (left ++ right ++ after) :=
  ⟨[], left ++ right, after, rfl, rfl, rfl, first.isSolid.append second.isSolid,
    isJammed_of_literals first second apart⟩

end Worksheet
