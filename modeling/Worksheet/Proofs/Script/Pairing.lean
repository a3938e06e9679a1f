import Mathlib
import Worksheet.Proofs.Formula.Check

/-!
# Quotes and parentheses in pairs

A text is paired when its quotes are even in number and its parentheses outside literals match: none
closes what is not open, and none stays open. This is put in terms of how often the characters
occur, without going through the text. Reading a script, which does go through it, succeeds on
exactly these texts.
-/

set_option autoImplicit false

namespace Worksheet

/-- The quotes and the parentheses outside literals come in pairs. -/
structure IsPaired (text : List Char) : Prop where
  quotes : text.count '"' % 2 = 0
  parentheses : (maskQuoted text).count '(' = (maskQuoted text).count ')'
  /-- No part at the start closes more than it opens. -/
  inOrder : ∀ front, front <+: maskQuoted text → front.count ')' ≤ front.count '('

theorem forall_prefix_cons {α : Type} {c : α} {rest : List α} {property : List α → Prop} :
    (∀ front, front <+: c :: rest → property front) ↔
      property [] ∧ ∀ front, front <+: rest → property (c :: front) := by
  constructor
  · intro all
    exact ⟨all [] List.nil_prefix, fun front within => all _ (List.cons_prefix_cons.mpr ⟨rfl, within⟩)⟩
  · rintro ⟨empty, longer⟩ front within
    rcases List.prefix_cons_iff.mp within with rfl | ⟨shorter, rfl, isFront⟩
    · exact empty
    · exact longer shorter isFront

def Formula.Closes (depth : Nat) (text : List Char) : Prop :=
  text.count ')' = depth + text.count '(' ∧
    ∀ front, front <+: text → front.count ')' ≤ depth + front.count '('

namespace Formula

theorem closes_nil_iff {depth : Nat} : Closes depth [] ↔ depth = 0 := by
  simp [Closes, eq_comm]

theorem closes_opening_iff {depth : Nat} {rest : List Char} :
    Closes depth ('(' :: rest) ↔ Closes (depth + 1) rest := by
  have other (front : List Char) : ('(' :: front).count ')' = front.count ')' :=
    List.count_cons_of_ne (by decide)
  simp only [Closes, forall_prefix_cons, other, List.count_cons_self, List.count_nil, Nat.zero_le,
    true_and, Nat.add_assoc, Nat.add_comm 1]

theorem closes_closing_iff {depth : Nat} {rest : List Char} :
    Closes depth (')' :: rest) ↔ depth ≠ 0 ∧ Closes (depth - 1) rest := by
  have other (front : List Char) : (')' :: front).count '(' = front.count '(' :=
    List.count_cons_of_ne (by decide)
  simp only [Closes, forall_prefix_cons, other, List.count_cons_self, List.count_nil, Nat.zero_le,
    true_and]
  constructor
  · rintro ⟨total, within⟩
    -- the parenthesis alone is a part at the start
    have here := within [] List.nil_prefix
    simp only [List.count_nil] at here
    refine ⟨by omega, by omega, ?_⟩
    intro front isFront
    have bound := within front isFront
    omega
  · rintro ⟨opened, total, within⟩
    refine ⟨by omega, ?_⟩
    intro front isFront
    have bound := within front isFront
    omega

theorem closes_cons_iff {c : Char} (notOpening : c ≠ '(') (notClosing : c ≠ ')') {depth : Nat}
    {rest : List Char} : Closes depth (c :: rest) ↔ Closes depth rest := by
  simp only [Closes, forall_prefix_cons, List.count_cons_of_ne notOpening,
    List.count_cons_of_ne notClosing, List.count_nil, Nat.zero_le, true_and]

theorem isBalanced_iff (depth : Nat) (text : List Char) :
    isBalanced depth text = true ↔ Closes depth text := by
  induction text generalizing depth with
  | nil => rw [isBalanced, beq_iff_eq, closes_nil_iff]
  | cons c rest ih =>
      rw [isBalanced]
      by_cases isOpening : c = '('
      · rw [if_pos isOpening, isOpening, closes_opening_iff, ih]
      rw [if_neg isOpening]
      by_cases isClosing : c = ')'
      · rw [if_pos isClosing, isClosing, closes_closing_iff, Bool.and_eq_true, bne_iff_ne, ih]
      · rw [if_neg isClosing, closes_cons_iff isOpening isClosing, ih]

end Formula

theorem endsQuoted_eq_false_iff {text : List Char} :
    endsQuoted false text = false ↔ text.count '"' % 2 = 0 := by
  rw [← Bool.not_eq_true, endsQuoted_iff_count]
  simp

theorem Script.check_iff_isPaired {text : List Char} :
    Script.check 0 false text = .ok () ↔ IsPaired text := by
  rw [Script.check_iff, endsQuoted_eq_false_iff, ← maskQuoted, Formula.isBalanced_iff,
    Formula.Closes]
  simp only [Nat.zero_add]
  constructor
  · rintro ⟨quotes, parentheses, inOrder⟩
    exact ⟨quotes, parentheses.symm, inOrder⟩
  · intro paired
    exact ⟨paired.quotes, paired.parentheses.symm, paired.inOrder⟩

instance (text : List Char) : Decidable (IsPaired text) :=
  decidable_of_iff (Script.check 0 false text = .ok ()) Script.check_iff_isPaired

end Worksheet
