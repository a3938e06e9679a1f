import Mathlib
import Worksheet.Proofs.Script.Arguments
import Worksheet.Proofs.Script.Pairing

/-!
# Joining arguments by commas

A text is sealed when its quotes and parentheses come in pairs and each of its commas stands in a
literal or in parentheses. Sealed texts with commas between them are split where they were joined, so
that splitting gives them back, but for the blanks around each.
-/

set_option autoImplicit false

namespace Worksheet

/-- No comma of a paired text stands outside both literals and parentheses. -/
structure IsSealed (text : List Char) : Prop where
  paired : IsPaired text
  /-- In front of a comma the quotes are odd in number or a parenthesis is open. -/
  enclosed : ∀ front back, text = front ++ ',' :: back →
    front.count '"' % 2 = 1 ∨ (maskQuoted front).count ')' < (maskQuoted front).count '('

theorem maskFrom_append (inside : Bool) (first second : List Char) :
    maskFrom inside (first ++ second) =
      maskFrom inside first ++ maskFrom (endsQuoted inside first) second := by
  induction first generalizing inside with
  | nil => rfl
  | cons c rest ih =>
      simp only [List.cons_append, maskFrom, endsQuoted]
      split <;> rw [ih, List.cons_append]

/-- What a paired text begins with is paired, if its quotes are even in number and no parenthesis is
open behind it. -/
theorem IsPaired.of_append {front back : List Char} (paired : IsPaired (front ++ back))
    (even : front.count '"' % 2 = 0)
    (closed : (maskQuoted front).count '(' ≤ (maskQuoted front).count ')') : IsPaired front := by
  have isFront : maskQuoted front <+: maskQuoted (front ++ back) := by
    rw [maskQuoted, maskQuoted, maskFrom_append]
    exact List.prefix_append _ _
  refine ⟨even, Nat.le_antisymm closed (paired.inOrder _ isFront), ?_⟩
  intro shorter within
  exact paired.inOrder shorter (within.trans isFront)

namespace Arguments

/-- A sealed text is one part, and no other paired text is. -/
theorem isSealed_iff {text : List Char} :
    IsSealed text ↔ Script.check 0 false text = .ok () ∧ parts 0 false text = [text] := by
  constructor
  · intro sealedText
    have checked := Script.check_iff_isPaired.mpr sealedText.paired
    refine ⟨checked, ?_⟩
    obtain ⟨first, alone, whole | ⟨rest, split, others⟩⟩ := exists_first_part 0 false text
    · rw [← whole, alone]
    · exfalso
      -- the first part ends at a comma, in front of which everything is paired
      obtain ⟨head, _, found, headChecked, _⟩ := check_parts checked
      rw [others] at found
      obtain ⟨rfl, _⟩ := List.cons.inj found
      have front := Script.check_iff_isPaired.mp headChecked
      have quotes := front.quotes
      have parentheses := front.parentheses
      rcases sealedText.enclosed first rest split with odd | opened
      · omega
      · omega
  · rintro ⟨checked, alone⟩
    have paired := Script.check_iff_isPaired.mp checked
    refine ⟨paired, ?_⟩
    intro front back split
    by_contra outside
    obtain ⟨even, closed⟩ := not_or.mp outside
    -- such a comma would separate the text into two parts at least
    have frontPaired := IsPaired.of_append (split ▸ paired) (by omega) (by omega)
    have several := parts_append_comma (Script.check_iff_isPaired.mpr frontPaired) back
    rw [← split, alone] at several
    have left := List.length_pos_iff.mpr (parts_ne_nil 0 false front)
    have right := List.length_pos_iff.mpr (parts_ne_nil 0 false back)
    have count := congrArg List.length several
    rw [List.length_append, List.length_singleton] at count
    omega

instance (text : List Char) : Decidable (IsSealed text) :=
  decidable_of_iff (Script.check 0 false text = .ok () ∧ parts 0 false text = [text])
    isSealed_iff.symm

theorem parts_intercalate {texts : List (List Char)} (nonempty : texts ≠ [])
    (each : ∀ text ∈ texts, IsSealed text) : parts 0 false ([','].intercalate texts) = texts := by
  induction texts with
  | nil => exact absurd rfl nonempty
  | cons first rest ih =>
      obtain ⟨checked, alone⟩ := isSealed_iff.mp (each first List.mem_cons_self)
      cases rest with
      | nil => rw [List.intercalate_singleton, alone]
      | cons second more =>
          have others := ih (List.cons_ne_nil _ _) fun text member =>
            each text (List.mem_cons_of_mem _ member)
          rw [List.intercalate_cons_cons, List.append_assoc, List.singleton_append,
            parts_append_comma checked, alone, others]
          rfl

theorem all_isBlank_intercalate {texts : List (List Char)} (nonempty : texts ≠ [])
    (visible : ∀ text, texts = [text] → text.all isBlank = false) :
    ([','].intercalate texts).all isBlank = false := by
  cases texts with
  | nil => exact absurd rfl nonempty
  | cons first rest =>
      cases rest with
      | nil =>
          rw [List.intercalate_singleton]
          exact visible first rfl
      | cons second more =>
          have comma : isBlank ',' = false := by decide
          rw [List.intercalate_cons_cons, List.all_append, List.all_append, List.all_cons, comma]
          simp

/-- Splitting undoes joining by commas: sealed texts come back trimmed, in order and none lost, even
those that are blank. Only a single blank text is no argument, and neither is any other blank text. -/
theorem split_joined :
    (∀ text : List Char, text.all isBlank = true → split text = []) ∧
      ∀ texts : List (List Char), texts ≠ [] → (∀ text ∈ texts, IsSealed text) →
        (∀ text, texts = [text] → text.all isBlank = false) →
          split ([','].intercalate texts) = texts.map trim := by
  constructor
  · intro text blank
    rw [split, isEmpty_trim, blank, if_pos rfl]
  · intro texts nonempty each visible
    have shown := all_isBlank_intercalate nonempty visible
    rw [split, isEmpty_trim, shown, parts_intercalate nonempty each, if_neg Bool.false_ne_true]

/-- Commas in a literal with doubled quotes and in nested groups, and blank texts in all places. -/
theorem split_joined_of_blank_slots :
    let texts := [" ".toList, " \"a,\"\"(\" ".toList, "".toList, "((1,2),F(3,4))".toList, "\t".toList]
    split " , \"a,\"\"(\" ,,((1,2),F(3,4)),\t".toList =
        ["".toList, "\"a,\"\"(\"".toList, "".toList, "((1,2),F(3,4))".toList, "".toList] ∧
      split " \t".toList = [] ∧ ∀ text ∈ texts, IsSealed text := by
  intro texts
  have each : ∀ text ∈ texts, IsSealed text := by decide
  refine ⟨?_, split_joined.1 _ (by decide), each⟩
  exact split_joined.2 texts (List.cons_ne_nil _ _) each (fun text single => by simp [texts] at single)

end Arguments

end Worksheet
