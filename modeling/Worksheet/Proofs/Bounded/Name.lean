import Mathlib
import Worksheet.Proofs.Bounded.Basic
import Worksheet.Proofs.Script.Name
import Worksheet.Proofs.Text.Bytes

/-!
# The name in front of an offset

Bytes that may stand in a name are looked for backwards from an offset. They are within ASCII, and
no byte of a character beyond it is among them, so the run of such bytes begins at a character.
-/

set_option autoImplicit false

namespace Worksheet

open Script (byteSize byteSize_append)

def isNameByte (byte : UInt8) : Bool :=
  decide (byte.toNat < 128) && isNameChar (.ofNat byte.toNat)

def nameBefore? (text : List Char) (opening : Nat) : Option (Option (List Char)) := do
  let head ← take? (bytes text) opening
  let name ← slice? text (head.reverse.dropWhile isNameByte).length opening
  return match bytes name with
    | [] => none
    | first :: _ =>
        if isNameByte first && !(Char.ofNat first.toNat).isDigit then some name else none

theorem toNat_lt_of_isNameChar {c : Char} (inName : isNameChar c = true) : c.toNat < 128 :=
  Nat.lt_of_le_of_lt (bounds_of_isNameChar inName).2 (by decide)

theorem ofNat_toNat_asciiByte {c : Char} (ascii : c.toNat < 128) :
    Char.ofNat (UInt8.ofNat c.toNat).toNat = c := by
  rw [UInt8.toNat_ofNat', Nat.mod_eq_of_lt (by omega), Char.ofNat_toNat]

theorem isNameByte_of_ascii {c : Char} (ascii : c.toNat < 128) :
    isNameByte (.ofNat c.toNat) = isNameChar c := by
  rw [isNameByte, ofNat_toNat_asciiByte ascii, UInt8.toNat_ofNat', Nat.mod_eq_of_lt (by omega),
    decide_eq_true ascii, Bool.true_and]

theorem isNameByte_of_wide {byte : UInt8} (wide : 128 ≤ byte.toNat) : isNameByte byte = false := by
  rw [isNameByte, decide_eq_false (Nat.not_lt.mpr wide), Bool.false_and]

theorem dropWhile_bytes (behind : List Char) :
    (bytes behind.reverse).reverse.dropWhile isNameByte =
      (bytes (behind.dropWhile isNameChar).reverse).reverse := by
  induction behind with
  | nil => rfl
  | cons c rest ih =>
      rw [List.reverse_cons, bytes_append, List.reverse_append, bytes_cons, bytes_nil,
        List.append_nil]
      by_cases ascii : c.toNat < 128
      · rw [utf8EncodeChar_of_ascii ascii, List.reverse_singleton, List.singleton_append,
          List.dropWhile_cons, List.dropWhile_cons, isNameByte_of_ascii ascii, ih]
        split
        · rfl
        · rw [List.reverse_cons, bytes_append, bytes_cons, bytes_nil, List.append_nil,
            utf8EncodeChar_of_ascii ascii, List.reverse_append, List.reverse_singleton,
            List.singleton_append]
      · have wide (byte : UInt8) (member : byte ∈ String.utf8EncodeChar c) : isNameByte byte = false :=
          isNameByte_of_wide (le_of_mem_utf8EncodeChar (Nat.not_lt.mp ascii) member)
        have other : ¬ isNameChar c = true := fun inName => ascii (toNat_lt_of_isNameChar inName)
        obtain ⟨last, others, reversed⟩ := List.exists_cons_of_ne_nil
          (mt List.reverse_eq_nil_iff.mp (String.utf8EncodeChar_ne_nil (c := c)))
        have stops : ¬ isNameByte last = true := by
          rw [wide last (List.mem_reverse.mp (reversed ▸ List.mem_cons_self))]
          exact Bool.false_ne_true
        rw [List.dropWhile_cons_of_neg other, List.reverse_cons, bytes_append, bytes_cons, bytes_nil,
          List.append_nil, List.reverse_append, reversed, List.cons_append,
          List.dropWhile_cons_of_neg stops]

/-- The name in front of an offset is read within bounds, and it is the one at the end of the text
in front of the offset. -/
theorem nameBefore?_append {text front back : List Char} {opening : Nat}
    (text_eq : text = front ++ back) (opening_eq : opening = byteSize front) :
    nameBefore? text opening = some (nameBehind? front.reverse) := by
  subst text_eq opening_eq
  have head : take? (bytes (front ++ back)) (byteSize front) = some (bytes front) := by
    rw [bytes_append, ← length_bytes, take?_append]
  have run := dropWhile_bytes front.reverse
  rw [List.reverse_reverse] at run
  generalize near : front.reverse.takeWhile isNameChar = name at *
  generalize far : front.reverse.dropWhile isNameChar = before at *
  have whole : front = before.reverse ++ name.reverse := by
    rw [← List.reverse_append, ← near, ← far, List.takeWhile_append_dropWhile, List.reverse_reverse]
  have part : slice? (front ++ back) (byteSize before.reverse) (byteSize front)
      = some name.reverse :=
    slice?_append (by rw [whole, List.append_assoc]) rfl (by rw [whole, byteSize_append])
  rw [nameBefore?, head, Option.bind_eq_bind, Option.bind_some, run, List.length_reverse,
    length_bytes, part, Option.bind_eq_bind, Option.bind_some, nameBehind?, near]
  cases reversed : name.reverse with
  | nil => rfl
  | cons first rest =>
      have member : first ∈ front.reverse.takeWhile isNameChar := by
        rw [near, ← List.mem_reverse, reversed]
        exact List.mem_cons_self
      have inName : isNameChar first = true := List.mem_takeWhile_imp member
      have ascii := toNat_lt_of_isNameChar inName
      rw [bytes_cons, utf8EncodeChar_of_ascii ascii, List.singleton_append]
      simp only [isNameByte_of_ascii ascii, ofNat_toNat_asciiByte ascii, inName, Bool.true_and,
        Bool.not_eq_true', Option.pure_def]
      cases first.isDigit <;> rfl

end Worksheet
