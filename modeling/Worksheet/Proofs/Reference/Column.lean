import Mathlib
import Worksheet.Function.Basic
import Worksheet.Proofs.Reference.RoundTrip
import Worksheet.Proofs.Script.Name

/-!
# Columns and their letters

Columns and letters in capitals correspond one to one: the letters of a column are read as the
column, and letters that are read are those of their column in some case. Letters fail to be read
only if there are none, if one is no letter, or if their value in the system with the digits one to
twenty-six is too great.

The value is a sum over places, each letter with its power of twenty-six. Since there is no digit
zero, the last letter of a column is found by dividing what lies below the ordinal.
-/

set_option autoImplicit false

namespace Worksheet

def lettersValue : List Char → Nat
  | [] => 0
  | letter :: rest => letterOrdinal letter * 26 ^ rest.length + lettersValue rest

theorem total_letterOrdinal (start : Nat) (letters : List Char) :
    total 26 letterOrdinal start letters = start * 26 ^ letters.length + lettersValue letters := by
  induction letters generalizing start with
  | nil => simp [total, lettersValue]
  | cons letter rest ih =>
      change total 26 letterOrdinal (26 * start + letterOrdinal letter) rest = _
      rw [ih, lettersValue, List.length_cons]
      ring

theorem lettersOrdinal_eq_lettersValue (letters : List Char) :
    lettersOrdinal letters = lettersValue letters := by
  change total 26 letterOrdinal 0 letters = _
  rw [total_letterOrdinal, Nat.zero_mul, Nat.zero_add]

theorem letterOrdinal_spec {letter : Char} (isLetter : letter.isAlpha = true) :
    1 ≤ letterOrdinal letter ∧ letterOrdinal letter ≤ 26 ∧
      capital (letterOrdinal letter - 1) = letter.toUpper := by
  have ascii : ∀ code : Fin 128, (Char.ofNat code).isAlpha = true →
      1 ≤ letterOrdinal (Char.ofNat code) ∧ letterOrdinal (Char.ofNat code) ≤ 26 ∧
        capital (letterOrdinal (Char.ofNat code) - 1) = (Char.ofNat code).toUpper := by
    decide +kernel
  have inName : isNameChar letter = true := by simp [isNameChar, Char.isAlphanum, isLetter]
  have below : letter.toNat < 128 :=
    Nat.lt_of_le_of_lt (bounds_of_isNameChar inName).2 (by decide)
  have same : Char.ofNat letter.toNat = letter := Char.ofNat_toNat letter
  rw [← same] at isLetter ⊢
  exact ascii ⟨letter.toNat, below⟩ isLetter

theorem lettersOrdinal_pos {letters : List Char} (nonempty : letters ≠ [])
    (allLetters : ∀ c ∈ letters, c.isAlpha = true) : 1 ≤ lettersOrdinal letters := by
  obtain ⟨front, last, rfl⟩ := (List.eq_nil_or_concat' letters).resolve_left nonempty
  rw [lettersOrdinal_append]
  have positive := (letterOrdinal_spec (allLetters last (by simp))).1
  omega

theorem columnLetters_lettersOrdinal {letters : List Char} (nonempty : letters ≠ [])
    (allLetters : ∀ c ∈ letters, c.isAlpha = true) :
    columnLetters (lettersOrdinal letters - 1) = capitals letters := by
  induction letters using List.reverseRecOn with
  | nil => exact absurd rfl nonempty
  | append_singleton front last ih =>
      obtain ⟨least, most, last_eq⟩ := letterOrdinal_spec (allLetters last (by simp))
      have frontLetters : ∀ c ∈ front, c.isAlpha = true :=
        fun c member => allLetters c (List.mem_append_left _ member)
      rw [lettersOrdinal_append, columnLetters]
      by_cases single : front = []
      · subst single
        have alone : 26 * lettersOrdinal [] + letterOrdinal last - 1 = letterOrdinal last - 1 := by
          simp [lettersOrdinal]
        rw [alone, if_pos (by omega), last_eq]
        rfl
      · have positive := lettersOrdinal_pos single frontLetters
        have quotient : (26 * lettersOrdinal front + letterOrdinal last - 1) / 26 - 1 =
            lettersOrdinal front - 1 := by omega
        have remainder : (26 * lettersOrdinal front + letterOrdinal last - 1) % 26 =
            letterOrdinal last - 1 := by omega
        rw [if_neg (by omega), quotient, remainder, ih single frontLetters, last_eq]
        simp [capitals]

theorem columnLetters_of_column? {letters : List Char} {column : Nat}
    (read : column? letters = some column) : columnLetters column = capitals letters := by
  obtain ⟨⟨nonempty, allLetters⟩, ordinal, _⟩ := column?_eq_some_iff.mp read
  rw [← columnLetters_lettersOrdinal nonempty allLetters, ordinal, Nat.add_sub_cancel]

theorem column?_eq_none_iff {letters : List Char} :
    column? letters = none ↔
      letters = [] ∨ (∃ c ∈ letters, c.isAlpha = false) ∨ greatestIndex < lettersValue letters := by
  rw [column?, lettersOrdinal_eq_lettersValue]
  by_cases nonempty : letters = []
  · simp [nonempty]
  by_cases allLetters : ∀ c ∈ letters, c.isAlpha = true
  · have positive := lettersOrdinal_pos nonempty allLetters
    rw [lettersOrdinal_eq_lettersValue] at positive
    have other : ¬ ∃ c ∈ letters, c.isAlpha = false := by
      rintro ⟨c, member, no⟩
      rw [allLetters c member] at no
      cases no
    rw [if_pos ⟨nonempty, List.all_eq_true.mpr allLetters⟩, indexOfOrdinal?]
    simp only [nonempty, other, false_or, ite_eq_right_iff, reduceCtorEq, imp_false]
    omega
  · have other : ∃ c ∈ letters, c.isAlpha = false := by simpa using allLetters
    rw [if_neg (by simpa [nonempty] using other)]
    simp [other]

def readLettersFrom? (ordinal : Nat) : List Char → Option Nat
  | [] => some ordinal
  | letter :: rest =>
      if letter.isAlpha then
        (fits? (26 * ordinal)).bind fun scaled =>
          (fits? (scaled + letterOrdinal letter)).bind fun next => readLettersFrom? next rest
      else none

def readLetters? (letters : List Char) : Option Nat :=
  if letters = [] then none else (readLettersFrom? 0 letters).bind predecessor?

theorem readLettersFrom?_eq (ordinal : Nat) (letters : List Char) :
    readLettersFrom? ordinal letters =
      if letters.all Char.isAlpha then checkedTotal? 26 letterOrdinal ordinal letters else none := by
  induction letters generalizing ordinal with
  | nil => rfl
  | cons letter rest ih =>
      rw [readLettersFrom?, checkedTotal?, List.all_cons]
      simp only [ih]
      cases letter.isAlpha with
      | false => rfl
      | true =>
          cases rest.all Char.isAlpha with
          | true => rfl
          | false => simp

theorem readLetters?_eq_column? (letters : List Char) : readLetters? letters = column? letters := by
  rw [readLetters?, readLettersFrom?_eq, column?_eq_checked]
  by_cases nonempty : letters = []
  · simp [nonempty]
  · cases letters.all Char.isAlpha <;> simp [nonempty]

theorem toNat_sub_one {word : BitVec 128} (nonzero : word ≠ 0) :
    (word - 1).toNat = word.toNat - 1 := by
  bv_omega

def writeLetters (ordinal : BitVec 128) (written : List Char) : List Char :=
  if ordinal = 0 then written
  else writeLetters ((ordinal - 1) / 26) (capital ((ordinal - 1) % 26).toNat :: written)
termination_by ordinal.toNat
decreasing_by
  rename_i nonzero
  have positive : ordinal.toNat ≠ 0 := fun zero => nonzero (BitVec.eq_of_toNat_eq zero)
  rw [BitVec.toNat_udiv, toNat_sub_one nonzero]
  change (ordinal.toNat - 1) / 26 < ordinal.toNat
  omega

theorem writeLetters_zero (written : List Char) : writeLetters 0 written = written := by
  rw [writeLetters, if_pos rfl]

theorem writeLetters_succ {column : Nat} (fits : column + 1 < 2 ^ 128) (written : List Char) :
    writeLetters (.ofNat 128 (column + 1)) written =
      writeLetters (.ofNat 128 (column / 26)) (capital (column % 26) :: written) := by
  have nonzero : BitVec.ofNat 128 (column + 1) ≠ 0 := by bv_omega
  have below : (BitVec.ofNat 128 (column + 1) - 1).toNat = column := by
    rw [toNat_sub_one nonzero, BitVec.toNat_ofNat, Nat.mod_eq_of_lt fits, Nat.add_sub_cancel]
  have digit : ((BitVec.ofNat 128 (column + 1) - 1) % 26).toNat = column % 26 := by
    rw [BitVec.toNat_umod, below]
    rfl
  have others : (BitVec.ofNat 128 (column + 1) - 1) / 26 = .ofNat 128 (column / 26) := by
    apply BitVec.eq_of_toNat_eq
    rw [BitVec.toNat_udiv, below, BitVec.toNat_ofNat, Nat.mod_eq_of_lt (by omega)]
    rfl
  rw [writeLetters, if_neg nonzero, digit, others]

theorem writeLetters_eq {column : Nat} (fits : column + 1 < 2 ^ 128) (written : List Char) :
    writeLetters (.ofNat 128 (column + 1)) written = columnLetters column ++ written := by
  induction column using columnLetters.induct generalizing written with
  | case1 column small =>
      rw [writeLetters_succ fits, Nat.div_eq_of_lt small, Nat.mod_eq_of_lt small, columnLetters,
        if_pos small]
      exact writeLetters_zero _
  | case2 column large ih =>
      have next : column / 26 = column / 26 - 1 + 1 := by omega
      have whole : columnLetters column =
          columnLetters (column / 26 - 1) ++ [capital (column % 26)] := by
        rw [columnLetters, if_neg large]
      rw [writeLetters_succ fits, next, ih (by omega), whole, List.append_assoc]
      rfl

/-- Columns and their letters correspond one to one. A column has letters that are written without
overflow and read as the column; letters that are read are, in capitals, those of the column; and
just what is empty, holds no letter somewhere, or has too great a value is not read. Reading may
stop at the first fault. -/
theorem column_letters_bijective :
    (∀ letters, readLetters? letters = column? letters) ∧
    (∀ column, column < greatestIndex →
      writeLetters (.ofNat 128 (column + 1)) [] = columnLetters column ∧
        column? (columnLetters column) = some column) ∧
    (∀ letters column, column? letters = some column → columnLetters column = capitals letters) ∧
    ∀ letters, column? letters = none ↔
      letters = [] ∨ (∃ c ∈ letters, c.isAlpha = false) ∨ greatestIndex < lettersValue letters := by
  refine ⟨readLetters?_eq_column?, fun column below => ?_, fun _ _ => columnLetters_of_column?,
    fun _ => column?_eq_none_iff⟩
  have fits : column + 1 < 2 ^ 128 := by
    unfold greatestIndex at below
    have size : UInt64.size = 2 ^ 64 := rfl
    omega
  exact ⟨by rw [writeLetters_eq fits, List.append_nil], column?_columnLetters below⟩

/-- A carry from one letter to two, letters in mixed case, and the least value that is too great. -/
theorem column_letters_bijective_at_carries :
    column? (columnLetters 26) = some 26 ∧ columnLetters 701 = "ZZ".toList ∧
      column? "GKGWBYLWRXTLPP".toList = none := by
  obtain ⟨_, written, read, unread⟩ := column_letters_bijective
  refine ⟨(written 26 (by decide)).2, read "zZ".toList 701 (by decide +kernel), ?_⟩
  exact (unread _).mpr (.inr (.inr (by decide +kernel)))

end Worksheet
