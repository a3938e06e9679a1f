import Mathlib
import Worksheet.Proofs.Number.Machine

/-!
# The closest number

Rounding a rational finds the finite number that no other one is closer to, of two the one whose
mantissa is even. Below the limit where infinity begins there is just one such number of either
sign: two would be neighbours with the rational halfway between them, and of two neighbours one is
odd.
-/

set_option autoImplicit false

namespace Worksheet

namespace Magnitude

theorem mantissa_mod_two (bits : Nat) : (ofBits bits).mantissa % 2 = bits % 2 := by
  obtain ⟨_, _, _, whole⟩ := canonical_ofBits bits
  omega

theorem succ_of_tie {a b : Nat} {v : ℚ} (less : a < b) (tie : |point a - v| = |point b - v|)
    (closest : a + 1 < b → |point a - v| ≤ |point (a + 1) - v|) :
    b = a + 1 ∧ v = (point a + point b) / 2 := by
  have order := point_strictMono less
  have middle : v = (point a + point b) / 2 := by
    rcases abs_eq_abs.mp tie with same | mirrored
    · exact absurd (sub_left_injective same) order.ne
    · linarith
  refine ⟨?_, middle⟩
  by_contra apart
  have gap : a + 1 < b := by omega
  have low := point_strictMono (Nat.lt_succ_self a)
  have high := point_strictMono gap
  have closer : |point (a + 1) - v| < |point a - v| := by
    rw [abs_of_neg (by linarith : point a - v < 0)]
    exact abs_lt.mpr ⟨by linarith, by linarith⟩
  exact absurd (closest gap) (not_le.mpr closer)

theorem roundedBits_middle (bits : Nat) :
    roundedBits ((point bits + point (bits + 1)) / 2) % 2 = 0 := by
  obtain ⟨small, least, normal, _⟩ := canonical_ofBits bits
  have unit : (0 : ℚ) < 2 ^ (ofBits bits).exponent := by positivity
  have quotient : (point bits + point (bits + 1)) / 2 / 2 ^ (ofBits bits).exponent =
      (ofBits bits).mantissa + 1 / 2 := by
    rw [point_succ, point, value]
    field_simp
    ring
  have positive : 0 < (point bits + point (bits + 1)) / 2 := by
    linarith [point_nonneg bits, point_strictMono (Nat.lt_succ_self bits)]
  generalize (ofBits bits).mantissa = m at small normal quotient
  obtain ⟨k, isHalfEven, even⟩ : ∃ k : Nat, IsHalfEven k ((m : ℚ) + 1 / 2) ∧ k % 2 = 0 := by
    rcases Nat.mod_two_eq_zero_or_one m with even | odd
    · exact ⟨m, ⟨by linarith, by linarith, fun _ => even, fun _ => even⟩, even⟩
    · have next : (m + 1) % 2 = 0 := by omega
      refine ⟨m + 1, ⟨?_, ?_, fun _ => next, fun _ => next⟩, next⟩ <;> push_cast <;> linarith
  have below : (m : ℚ) + 1 ≤ 2 ^ 53 := by exact_mod_cast small
  have long : (2 : ℚ) ^ 52 ≤ m + 1 / 2 ∨ (ofBits bits).exponent = -1074 := by
    refine normal.imp_left fun normal => ?_
    have cast : (2 : ℚ) ^ 52 ≤ m := by exact_mod_cast normal
    linarith
  rw [← quotient] at isHalfEven long
  rw [roundedBits_eq positive least (by rw [quotient]; linarith) long isHalfEven]
  omega

end Magnitude

open Magnitude

/-- A finite number with the given sign that is closest to a rational without its sign. Its mantissa
is even if another one is as close. The rational lies below the middle of the greatest number and
the power of two that infinity takes the place of. -/
structure IsNearestNumber (negative : Bool) (v : ℚ) (x : Float) : Prop where
  finite : x.isFinite = true
  sign : isNegative x = negative
  below : v < 2 ^ (1024 : ℤ) - 2 ^ (970 : ℤ)
  closest : ∀ y : Float, y.isFinite = true → |size x - v| ≤ |size y - v|
  even_of_tie : ∀ y : Float, y.isFinite = true → size y ≠ size x → |size y - v| = |size x - v| →
    (Magnitude.ofFloat x).mantissa % 2 = 0

theorem ofFloat_mod_two (x : Float) : (Magnitude.ofFloat x).mantissa % 2 = magnitudeBits x % 2 :=
  mantissa_mod_two _

namespace IsNearestNumber

variable {negative : Bool} {v : ℚ} {x y : Float}

theorem closest_point (near : IsNearestNumber negative v x) {bits : Nat}
    (small : bits < 2047 * 2 ^ 52) : |size x - v| ≤ |point bits - v| := by
  have finite := (@isFinite_rounding_iff false (point bits)).mpr (by rwa [roundedBits_point])
  have closest := near.closest _ finite
  rwa [size_rounding finite, rounded, roundedBits_point] at closest

theorem not_magnitudeBits_lt (first : IsNearestNumber negative v x)
    (second : IsNearestNumber negative v y) : ¬ magnitudeBits x < magnitudeBits y := by
  intro less
  have tie : |size x - v| = |size y - v| :=
    le_antisymm (first.closest y second.finite) (second.closest x first.finite)
  have order : size x < size y := point_strictMono less
  have even := first.even_of_tie y second.finite order.ne' tie.symm
  have even' := second.even_of_tie x first.finite order.ne tie
  rw [ofFloat_mod_two] at even even'
  obtain ⟨next, _⟩ := succ_of_tie less tie fun gap =>
    first.closest_point (gap.trans (magnitudeBits_lt second.finite))
  omega

theorem unique (first : IsNearestNumber negative v x) (second : IsNearestNumber negative v y) :
    x = y := by
  have same : magnitudeBits x = magnitudeBits y :=
    le_antisymm (not_lt.mp (second.not_magnitudeBits_lt first))
      (not_lt.mp (first.not_magnitudeBits_lt second))
  rw [← rounding_size first.finite, ← rounding_size second.finite, first.sign, second.sign, size,
    same, size]

end IsNearestNumber

section

variable {negative : Bool} {v : ℚ} {x : Float}

theorem isNearestNumber_rounding (nonneg : 0 ≤ v)
    (finite : (rounding negative v).isFinite = true) :
    IsNearestNumber negative v (rounding negative v) where
  finite := finite
  sign := isNegative_rounding finite
  below := (isFinite_rounding_iff_lt_limit nonneg).mp finite
  closest y _ := by
    rw [size_rounding finite]
    exact closest_rounded nonneg (onGrid_size y)
  even_of_tie y _ other tie := by
    have bits : magnitudeBits (rounding negative v) = roundedBits v :=
      point_injective (size_rounding finite)
    have closest (c : Nat) : |rounded v - v| ≤ |point c - v| :=
      closest_rounded nonneg (onGrid_point c)
    rw [ofFloat_mod_two, bits]
    rw [size_rounding finite] at other tie
    rcases lt_trichotomy (roundedBits v) (magnitudeBits y) with less | same | more
    · obtain ⟨next, middle⟩ := succ_of_tie less tie.symm fun _ => closest _
      rw [next] at middle
      exact middle ▸ roundedBits_middle (roundedBits v)
    · exact absurd (congrArg point same.symm) other
    · obtain ⟨next, middle⟩ := succ_of_tie more tie fun _ => tie.trans_le (closest _)
      rw [next] at middle
      exact middle ▸ roundedBits_middle (magnitudeBits y)

theorem rounding_eq_iff (nonneg : 0 ≤ v) :
    rounding negative v = x ∧ x.isFinite = true ↔ IsNearestNumber negative v x := by
  constructor
  · rintro ⟨rfl, finite⟩
    exact isNearestNumber_rounding nonneg finite
  · intro near
    have finite := (@isFinite_rounding_iff_lt_limit negative v nonneg).mpr near.below
    exact ⟨(isNearestNumber_rounding nonneg finite).unique near, near.finite⟩

end

end Worksheet
