import Mathlib
import Worksheet.Table.Record

/-!
# The types of fields

A field that spells a finite number becomes that number, unless blanks or idle zeros stand in front;
every other field remains the text that it is. In arithmetic a text counts as the number that it
spells, so it does not matter which of the two a field becomes: it counts as the same number, and it
is blank or not as before.
-/

set_option autoImplicit false

namespace Worksheet

theorem toLower_of_isDigit {c : Char} (digit : c.isDigit = true) : c.toLower = c := by
  simp only [Char.isDigit, Bool.and_eq_true, decide_eq_true_eq] at digit
  unfold Char.toLower
  rw [dif_neg]
  intro upper
  have low : 65 ≤ c.toNat := upper.1
  have high : c.toNat ≤ 57 := digit.2
  omega

namespace Numeral

theorem magnitude?_of_other {c : Char} (notDigit : c.isDigit = false) (notPoint : c ≠ '.')
    (rest : List Char) : magnitude? (c :: rest) = none := by
  have whole : (c :: rest).takeWhile Char.isDigit = [] :=
    List.takeWhile_cons_of_neg (by simp [notDigit])
  have behind : (c :: rest).dropWhile Char.isDigit = c :: rest :=
    List.dropWhile_cons_of_neg (by simp [notDigit])
  have fraction : takeFraction (c :: rest) = ([], c :: rest) := by
    unfold takeFraction
    split
    · rename_i same
      exact absurd (List.cons.inj same).1 notPoint
    · rfl
  rw [magnitude?, whole, behind, fraction]
  rfl

theorem read?_of_name {text : List Char} {name : String} {first : Char} {rest : List Char}
    (named : String.ofList ((takeSign text).2.map Char.toLower) = name)
    (letters : name.toList = first :: rest) (notDigit : first.isDigit = false)
    (notPoint : first ≠ '.') : read? text = none := by
  have lower : (takeSign text).2.map Char.toLower = first :: rest := by
    rw [← letters, ← named, String.toList_ofList]
  have unread : magnitude? (takeSign text).2 = none := by
    cases body : (takeSign text).2 with
    | nil =>
        rw [body] at lower
        cases lower
    | cons c more =>
        rw [body] at lower
        obtain ⟨same, _⟩ := List.cons.inj lower
        apply magnitude?_of_other
        · by_contra digit
          rw [Bool.not_eq_false] at digit
          rw [toLower_of_isDigit digit] at same
          rw [same, notDigit] at digit
          cases digit
        · rintro rfl
          exact notPoint same.symm
  unfold read?
  simp only [unread, Option.map_none]

end Numeral

theorem number?_eq_some_iff {text : List Char} {x : Float} (finite : x.isFinite = true) :
    number? text = some x ↔ (Numeral.read? text).map Numeral.toFloat = some x := by
  have named {y : Float} (other : y.isFinite = false) (unread : Numeral.read? text = none) :
      some y = some x ↔ (Numeral.read? text).map Numeral.toFloat = some x := by
    rw [unread]
    refine iff_of_false ?_ nofun
    intro same
    rw [Option.some.inj same, finite] at other
    cases other
  unfold number?
  dsimp only
  split
  · rename_i infinite
    refine named (by split <;> decide) ?_
    rcases infinite with spelled | spelled
    · exact Numeral.read?_of_name spelled rfl (by decide) (by decide)
    · exact Numeral.read?_of_name spelled rfl (by decide) (by decide)
  · split
    · rename_i notNumber
      exact named (by decide) (Numeral.read?_of_name notNumber rfl (by decide) (by decide))
    · rfl

namespace Record

/-- A field becomes a number exactly when it spells one plainly, without blanks around it and
without idle zeros. -/
theorem value_eq_number_iff {text : List Char} {x : Float} :
    value text = .number x ↔
      trim text = text ∧ isZeroPadded text = false ∧ (Value.text text).cellNumber? = some x := by
  have plain (trimmed : trim text = text) :
      (Value.text text).cellNumber? =
        ((Numeral.read? text).map Numeral.toFloat).filter Float.isFinite := by
    rw [Value.cellNumber?, Value.number?, plainNumber?, trimmed, Option.filter_filter]
    simp
  unfold value
  split
  · rename_i remains
    refine iff_of_false nofun ?_
    rintro ⟨trimmed, unpadded, spelled⟩
    rcases remains with empty | untrimmed | padded
    · rw [List.isEmpty_iff.mp empty] at spelled
      cases spelled
    · exact untrimmed trimmed
    · rw [padded] at unpadded
      cases unpadded
  · rename_i typed
    simp only [not_or, not_not, Bool.not_eq_true] at typed
    obtain ⟨_, trimmed, unpadded⟩ := typed
    rw [plain trimmed, Option.filter_eq_some_iff]
    constructor
    · intro became
      split at became
      · rename_i y found
        split at became
        · rename_i finite
          cases became
          exact ⟨trimmed, unpadded, (number?_eq_some_iff finite).mp found, finite⟩
        · cases became
      · cases became
    · rintro ⟨_, _, spelled, finite⟩
      rw [(number?_eq_some_iff finite).mpr spelled]
      simp only [finite, if_true]

theorem value_eq_text {text content : List Char} (remains : value text = .text content) :
    content = text := by
  unfold value at remains
  split at remains
  · exact (Value.text.inj remains).symm
  · split at remains
    · split at remains
      · cases remains
      · exact (Value.text.inj remains).symm
    · exact (Value.text.inj remains).symm

/-- The type of a field changes nothing: the field counts as the number that its text counts as, or
as none as its text does, and it is blank exactly when its text is. It becomes a number whenever its
text counts as one and has neither blanks around it nor idle zeros. -/
theorem typing_keeps_number (text : List Char) :
    (value text).cellNumber? = (Value.text text).cellNumber? ∧
      (value text).isBlankText = (Value.text text).isBlankText ∧
      ∀ x, value text = .number x ↔
        trim text = text ∧ isZeroPadded text = false ∧ (Value.text text).cellNumber? = some x := by
  refine ⟨?number, ?blank, fun x => value_eq_number_iff⟩
  case number =>
    cases typed : value text with
    | number x =>
        obtain ⟨_, _, spelled⟩ := value_eq_number_iff.mp typed
        have finite := (Option.filter_eq_some_iff.mp spelled).2
        rw [spelled, Value.cellNumber?, Value.number?, Option.filter_some, if_pos finite]
    | text content => rw [value_eq_text typed]
  case blank =>
    cases typed : value text with
    | number x =>
        obtain ⟨trimmed, _, spelled⟩ := value_eq_number_iff.mp typed
        have nonempty : text ≠ [] := by
          rintro rfl
          cases spelled
        rw [Value.isBlankText, Value.isBlankText, trimmed]
        simpa using nonempty
    | text content => rw [value_eq_text typed]

end Record

end Worksheet
