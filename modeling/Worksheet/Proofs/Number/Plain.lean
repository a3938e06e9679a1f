import Mathlib
import Worksheet.Proofs.Expression.Lexing
import Worksheet.Proofs.Number.Literal

/-!
# Plain numbers

The spelling of a finite number is a plain number, and it is read as that number with its sign. A
sign and a magnitude are rounded apart, so the number that a numeral is read as without its sign
settles what it is read as with it.
-/

set_option autoImplicit false

namespace Worksheet

theorem toNat_toBits (x : Float) :
    x.toBits.toNat = (if isNegative x then signBit else 0) + magnitudeBits x := by
  have bounded : x.toBits.toNat < signBit + signBit := x.toBits.toNat_lt
  rw [magnitudeBits, isNegative]
  by_cases negative : signBit ≤ x.toBits.toNat
  · rw [if_pos (by simpa using negative), Nat.mod_eq_sub_mod negative, Nat.mod_eq_of_lt (by omega)]
    omega
  · rw [if_neg (by simpa using negative), Nat.mod_eq_of_lt (by omega), Nat.zero_add]

theorem nearest_of_unsigned {x : Float} (finite : x.isFinite = true) {n d : Nat}
    (rounded : nearest false n d = unsigned x) : nearest (isNegative x) n d = x := by
  have magnitude : Magnitude.nearestBits n d = magnitudeBits x := by
    have bounded := nearestBits_lt (rounded ▸ isFinite_unsigned finite)
    have small : (UInt64.ofNat (Magnitude.nearestBits n d)).toNat = Magnitude.nearestBits n d :=
      UInt64.toNat_ofNat_of_lt' (bounded.trans (by decide))
    have bits := magnitudeBits_unsigned finite
    rw [← rounded, nearest_false, magnitudeBits_ofBits (by rwa [small]), small] at bits
    exact bits
  rw [nearest, magnitude, ← toNat_toBits, UInt64.ofNat_toNat, ofBits_toBits]

theorem Decimal.toFloat_of_unsigned {x : Float} (finite : x.isFinite = true) {d : Decimal}
    (read : d.toFloat false = unsigned x) : d.toFloat (isNegative x) = x := by
  obtain ⟨n, m, nearest⟩ := d.exists_nearest
  rw [nearest] at read ⊢
  exact nearest_of_unsigned finite read

theorem add_zero_eq {x : Float} (finite : x.isFinite = true) :
    x + 0.0 = if x = -0.0 then 0.0 else x := by
  rcases unpack_of_isFinite finite with ⟨_, unpacked⟩ | ⟨_, unpacked⟩
  · have whole := ofModel_pack_unpack x
    rw [unpacked, unpackedSign] at whole
    rw [add_zero_of_unpack_zero unpacked]
    cases negative : isNegative x with
    | false =>
        rw [negative] at whole
        have zero : x = 0.0 := whole.symm
        rw [zero]
        decide
    | true =>
        rw [negative] at whole
        have zero : x = -0.0 := whole.symm
        rw [zero, if_pos rfl]
  · have nonzero : x ≠ -0.0 := by
      intro zero
      have flat : x.toModel.unpack = .zero .negative := by
        rw [zero]
        rfl
      rw [flat] at unpacked
      cases unpacked
    rw [add_zero_of_unpack_finite unpacked, if_neg nonzero]

theorem visible_of_isDigits {text : List Char} (digits : IsDigits text) {c : Char}
    (member : c ∈ text) : isBlank c = false := by
  obtain ⟨_, _, _, _, numeric⟩ := digits
  exact Token.isBlank_of_isNumberChar (numeric c member)

theorem takeSign_signed (negative : Bool) {text : List Char} (digits : IsDigits text) :
    Numeral.takeSign (signed negative text) = (negative, text) := by
  cases negative with
  | true => rfl
  | false =>
      obtain ⟨first, rest, rfl, digit, _⟩ := digits
      unfold Numeral.takeSign signed
      split
      · rename_i same
        rw [(List.cons.inj same).1] at digit
        exact absurd digit (by decide)
      · rename_i same
        rw [(List.cons.inj same).1] at digit
        exact absurd digit (by decide)
      · rfl

theorem visible_spellNumber {x : Float} (finite : x.isFinite = true) :
    ∀ c ∈ spellNumber x, isBlank c = false := by
  intro c member
  have digits := isDigits_unsignedDigits x
  rw [spellNumber_of_isFinite finite] at member
  cases negative : isNegative x with
  | true =>
      rw [negative] at member
      rcases List.mem_cons.mp member with rfl | inside
      · decide
      · exact visible_of_isDigits digits inside
  | false =>
      rw [negative] at member
      exact visible_of_isDigits digits member

theorem plainNumber?_spellNumber {x : Float} (finite : x.isFinite = true) :
    plainNumber? (spellNumber x) = some x := by
  obtain ⟨d, read, unsignedRead⟩ := magnitude?_spellMagnitude finite
  have numeral : Numeral.read? (spellNumber x) = some ⟨isNegative x, d⟩ := by
    rw [spellNumber_of_isFinite finite, Numeral.read?,
      takeSign_signed (isNegative x) (isDigits_unsignedDigits x)]
    simp only [unsignedDigits, read, Option.map_some]
  have number : Numeral.toFloat ⟨isNegative x, d⟩ = x :=
    Decimal.toFloat_of_unsigned finite unsignedRead
  rw [plainNumber?, trim_of_visible (visible_spellNumber finite), numeral, Option.map_some, number,
    Option.filter_some, if_pos finite]

end Worksheet
