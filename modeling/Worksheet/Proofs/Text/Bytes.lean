import Mathlib
import Worksheet.Script.Basic
import Worksheet.Text.Order

/-!
# Texts as bytes

A character is one to four bytes. One within ASCII is its own byte, and all bytes of any other are
beyond ASCII, so whoever looks for ASCII characters may look at the bytes alone. The order of texts
by their characters is the order of their bytes.
-/

set_option autoImplicit false

namespace Worksheet

def bytes (text : List Char) : List UInt8 :=
  text.flatMap String.utf8EncodeChar

@[simp]
theorem bytes_nil : bytes [] = [] :=
  rfl

theorem bytes_cons (c : Char) (rest : List Char) :
    bytes (c :: rest) = String.utf8EncodeChar c ++ bytes rest :=
  List.flatMap_cons

theorem bytes_append (first second : List Char) :
    bytes (first ++ second) = bytes first ++ bytes second :=
  List.flatMap_append

theorem length_bytes (text : List Char) : (bytes text).length = Script.byteSize text := by
  induction text with
  | nil => rfl
  | cons c rest ih =>
      rw [bytes_cons, List.length_append, String.length_utf8EncodeChar, ih, Script.byteSize]

theorem utf8EncodeChar_of_ascii {c : Char} (ascii : c.toNat < 128) :
    String.utf8EncodeChar c = [.ofNat c.toNat] := by
  have small : c.val.toNat ≤ 0x7f := Nat.le_of_lt_succ ascii
  unfold String.utf8EncodeChar
  exact if_pos small

theorem le_of_mem_utf8EncodeChar {c : Char} (wide : 128 ≤ c.toNat) {byte : UInt8}
    (member : byte ∈ String.utf8EncodeChar c) : 128 ≤ byte.toNat := by
  have large : ¬ c.val.toNat ≤ 0x7f := Nat.not_le.mpr wide
  unfold String.utf8EncodeChar at member
  simp only [large, if_false] at member
  split_ifs at member
  all_goals
    simp only [List.mem_cons, List.not_mem_nil, or_false] at member
    rcases member with rfl | rfl | rfl | rfl
  all_goals
    rw [UInt8.toNat_ofNat']
    omega

theorem toNat_lt_of_char (c : Char) : c.toNat < 0x110000 := by
  have valid := c.valid
  simp only [UInt32.isValidChar, Nat.isValidChar] at valid
  change c.val.toNat < _
  omega

theorem sixtyFourths_lt {v w : Nat} (less : v < w) (bound : w < 0x110000) :
    v / 262144 % 8 < w / 262144 % 8 ∨ v / 262144 % 8 = w / 262144 % 8 ∧
      (v / 4096 % 64 < w / 4096 % 64 ∨ v / 4096 % 64 = w / 4096 % 64 ∧
        (v / 64 % 64 < w / 64 % 64 ∨ v / 64 % 64 = w / 64 % 64 ∧ v % 64 < w % 64)) := by
  have first : v / 262144 % 8 ≤ w / 262144 % 8 := by omega
  rcases first.lt_or_eq with first | first
  · exact .inl first
  have second : v / 4096 % 64 ≤ w / 4096 % 64 := by omega
  rcases second.lt_or_eq with second | second
  · exact .inr ⟨first, .inl second⟩
  have third : v / 64 % 64 ≤ w / 64 % 64 := by omega
  omega

theorem utf8EncodeChar_lt {c d : Char} (less : c.toNat < d.toNat) (first second : List UInt8) :
    String.utf8EncodeChar c ++ first < String.utf8EncodeChar d ++ second := by
  have bound : d.val.toNat < 0x110000 := toNat_lt_of_char d
  have less' : c.val.toNat < d.val.toNat := less
  unfold String.utf8EncodeChar
  generalize c.val.toNat = v at less' ⊢
  generalize d.val.toNat = w at less' bound ⊢
  have digits := sixtyFourths_lt less' bound
  clear less
  simp only []
  split_ifs
  -- a smaller character has no more bytes
  all_goals try omega
  all_goals
    simp only [List.cons_append, List.cons_lt_cons_iff, UInt8.lt_iff_toNat_lt, ← UInt8.toNat_inj,
      UInt8.toNat_ofNat']
    simp (disch := omega) only [Nat.mod_eq_of_lt (b := 256)]
    omega

theorem precedes_cons (c d : Char) (first second : List Char) :
    precedes (c :: first) (d :: second) = true ↔
      c.toNat < d.toNat ∨ c = d ∧ precedes first second = true := by
  simp [precedes]

theorem precedes_total (first second : List Char) :
    precedes first second = true ∨ first = second ∨ precedes second first = true := by
  induction first generalizing second with
  | nil => cases second <;> simp [precedes]
  | cons c first ih =>
      cases second with
      | nil => exact .inr (.inr rfl)
      | cons d second =>
          rw [precedes_cons, precedes_cons]
          rcases Nat.lt_trichotomy c.toNat d.toNat with less | same | greater
          · exact .inl (.inl less)
          · obtain rfl := Char.toNat_inj.mp same
            rcases ih second with before | rfl | behind
            · exact .inl (.inr ⟨rfl, before⟩)
            · exact .inr (.inl rfl)
            · exact .inr (.inr (.inr ⟨rfl, behind⟩))
          · exact .inr (.inr (.inl greater))

theorem bytes_lt_of_precedes {first second : List Char} (before : precedes first second = true) :
    bytes first < bytes second := by
  induction first generalizing second with
  | nil =>
      cases second with
      | nil => cases before
      | cons d second =>
          obtain ⟨byte, others, whole⟩ := List.exists_cons_of_ne_nil
            (String.utf8EncodeChar_ne_nil (c := d))
          rw [bytes_cons, whole]
          exact List.nil_lt_cons _ _
  | cons c first ih =>
      cases second with
      | nil => cases before
      | cons d second =>
          rw [bytes_cons, bytes_cons]
          rcases (precedes_cons c d first second).mp before with less | ⟨rfl, tails⟩
          · exact utf8EncodeChar_lt less _ _
          · exact List.append_left_lt (ih tails)

theorem precedes_iff_bytes_lt (first second : List Char) :
    precedes first second = true ↔ bytes first < bytes second := by
  refine ⟨bytes_lt_of_precedes, fun less => ?_⟩
  rcases precedes_total first second with before | rfl | behind
  · exact before
  · exact absurd less (List.lt_irrefl _)
  · exact absurd less (List.lt_asymm (bytes_lt_of_precedes behind))

end Worksheet
