import Mathlib
import Worksheet.Proofs.Formula.Check
import Worksheet.Proofs.Script.Arguments
import Worksheet.Table.Record

/-!
# The fields of a line

A comma separates two fields when an even number of quotes stands in front of it, so a line has one
field more than it has such commas. It is a record when its quotes are even in number altogether.

A text that closes its quotes and keeps its commas inside them is one field as a whole, and a line
of such texts with commas between them falls into these texts again.
-/

set_option autoImplicit false

namespace Worksheet.Record

open Arguments

/-- The number of commas in a line with an even number of quotes in front of them. If the flag is
set the line starts inside quotes, and the number has to be odd. -/
def separatorCount (inside : Bool) (text : List Char) : Nat :=
  (List.range text.length).countP fun place =>
    text[place]? = some ',' ∧ (text.take place).count '"' % 2 = inside.toNat

theorem writtenFields_ne_nil (inside : Bool) (line : List Char) :
    writtenFields inside line ≠ [] := by
  have nonempty (c : Char) (list : List (List Char)) : extendFirst c list ≠ [] := by
    cases list <;> simp [extendFirst]
  cases line with
  | nil => simp [writtenFields]
  | cons c rest =>
      unfold writtenFields
      split
      · exact nonempty _ _
      · split
        · simp
        · exact nonempty _ _

theorem separatorCount_cons (inside : Bool) (c : Char) (rest : List Char) :
    separatorCount inside (c :: rest) =
      (if c = ',' ∧ inside = false then 1 else 0) +
        separatorCount (if c = '"' then !inside else inside) rest := by
  have parity (count : Nat) :
      (count + if c = '"' then 1 else 0) % 2 = inside.toNat ↔
        count % 2 = (if c = '"' then !inside else inside).toNat := by
    split
    · cases inside <;>
        simp only [Bool.not_false, Bool.not_true, Bool.toNat_true, Bool.toNat_false] <;> omega
    · rw [Nat.add_zero]
  have first : (c = ',' ∧ 0 = inside.toNat) ↔ c = ',' ∧ inside = false := by
    cases inside <;> simp
  rw [separatorCount, List.length_cons, List.range_succ_eq_map, List.countP_cons, List.countP_map,
    Nat.add_comm]
  congr 1
  · simp [first]
  · apply List.countP_congr
    intro place _
    simp [List.count_cons, parity]

theorem length_writtenFields (inside : Bool) (line : List Char) :
    (writtenFields inside line).length = separatorCount inside line + 1 := by
  induction line generalizing inside with
  | nil => rfl
  | cons c rest ih =>
      rw [separatorCount_cons]
      unfold writtenFields
      by_cases isQuote : c = '"'
      · subst isQuote
        simp [length_extendFirst _ (writtenFields_ne_nil _ _), ih]
      by_cases separates : c = ',' ∧ inside = false
      · simp only [if_neg isQuote, if_pos separates, List.length_cons, ih]
        omega
      · simp only [if_neg isQuote, if_neg separates, Nat.zero_add,
          length_extendFirst _ (writtenFields_ne_nil _ _), ih]

/-- A line is a record exactly when its quotes are even in number, and its fields are one more than
the commas that separate them. -/
theorem fields?_of_even {line : List Char} (even : line.count '"' % 2 = 0) :
    ∃ fields, fields? line = some fields ∧ fields.length = separatorCount false line + 1 := by
  have closed : endsQuoted false line = false := by
    rw [Bool.eq_false_iff]
    intro opened
    have odd := (endsQuoted_iff_count false line).mp opened
    simp only [Bool.toNat_false, Nat.add_zero] at odd
    omega
  refine ⟨(writtenFields false line).map fieldText, ?_, ?_⟩
  · rw [fields?, closed]
    rfl
  · rw [List.length_map, length_writtenFields]

theorem fields?_of_odd {line : List Char} (odd : line.count '"' % 2 = 1) : fields? line = none := by
  have opened : endsQuoted false line = true := (endsQuoted_iff_count false line).mpr odd
  rw [fields?, opened]
  rfl

/-- The text closes its quotes and has no comma outside them. -/
structure IsWhole (text : List Char) : Prop where
  closed : endsQuoted false text = false
  undivided : separatorCount false text = 0

theorem writtenFields_append {inside : Bool} {text : List Char}
    (undivided : separatorCount inside text = 0) (rest : List Char) :
    writtenFields inside (text ++ rest) =
      extendText text (writtenFields (endsQuoted inside text) rest) := by
  induction text generalizing inside with
  | nil => exact (extendText_nil (writtenFields_ne_nil inside rest)).symm
  | cons c text ih =>
      rw [separatorCount_cons] at undivided
      have within := ih (Nat.eq_zero_of_add_eq_zero_left undivided)
      have noComma : ¬(c = ',' ∧ inside = false) := by
        intro separates
        simp [separates] at undivided
      rw [List.cons_append, writtenFields, if_neg noComma, endsQuoted, ← extendFirst_extendText,
        ← within]
      split <;> rfl

namespace IsWhole

variable {text : List Char}

theorem writtenFields_eq (whole : IsWhole text) : writtenFields false text = [text] := by
  have alone := writtenFields_append whole.undivided []
  rw [List.append_nil, whole.closed] at alone
  rw [alone, writtenFields, extendText, List.append_nil]

theorem writtenFields_comma (whole : IsWhole text) (rest : List Char) :
    writtenFields false (text ++ ',' :: rest) = text :: writtenFields false rest := by
  have comma : writtenFields false (',' :: rest) = [] :: writtenFields false rest := by
    simp [writtenFields]
  rw [writtenFields_append whole.undivided, whole.closed, comma, extendText, List.append_nil]

end IsWhole

theorem fields?_intercalate (first : List Char) (rest : List (List Char))
    (whole : ∀ text ∈ first :: rest, IsWhole text) :
    fields? ([','].intercalate (first :: rest)) = some ((first :: rest).map fieldText) := by
  have both : endsQuoted false ([','].intercalate (first :: rest)) = false ∧
      writtenFields false ([','].intercalate (first :: rest)) = first :: rest := by
    induction rest generalizing first with
    | nil =>
        have single := whole first List.mem_cons_self
        rw [List.intercalate_singleton]
        exact ⟨single.closed, single.writtenFields_eq⟩
    | cons second rest ih =>
        have single := whole first List.mem_cons_self
        have behind := ih second fun text member => whole text (List.mem_cons_of_mem _ member)
        rw [List.intercalate_cons_cons, List.append_assoc, List.singleton_append]
        constructor
        · rw [endsQuoted_append, single.closed, endsQuoted]
          exact behind.1
        · rw [single.writtenFields_comma, behind.2]
  rw [fields?, both.1, both.2]
  rfl

end Worksheet.Record
