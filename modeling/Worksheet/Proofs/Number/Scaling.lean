import Mathlib
import Worksheet.Proofs.Number.Rounded

/-!
# Scaling by a power of ten and back

A point of the grid times a power of ten is rounded, and the result divided by the power is rounded
again. Where the scaled point is a whole number whatever it is, doing this twice changes nothing
more. The points on both sides of a point are equally far, so the second pass comes back to the
point of the first one; only at a power of two are they not, and no power of ten is so near to a
power of two that the first pass could arrive there from above.
-/

set_option autoImplicit false

namespace Worksheet.Magnitude

theorem two_pow_ne_ten_pow (i : Nat) {n : Nat} (positive : 0 < n) : 2 ^ i ≠ 10 ^ n := by
  intro same
  have five : 5 ∣ 2 ^ i := same ▸ (by decide : 5 ∣ 10).trans (dvd_pow_self 10 positive.ne')
  have absurdity := Nat.prime_five.dvd_of_dvd_pow five
  omega

theorem ten_pow_le {n : Nat} (small : n ≤ 15) : 10 ^ n ≤ 10 ^ 15 :=
  Nat.pow_le_pow_right (by decide) small

theorem eq_of_near {a b : Nat} (le : a ≤ b) (small : a ≤ 10 ^ 15)
    (near : 2 ^ 53 * b ≤ (2 ^ 53 + 1) * a) : a = b := by
  omega

section

variable {n : Nat} (positive : 0 < n) (small : n ≤ 15) {j : ℤ}
include positive small

theorem not_near_ten_pow (above : (10 : ℚ) ^ n ≤ 2 ^ j) :
    (2 ^ 53 + 1) * (10 : ℚ) ^ n < 2 ^ 53 * 2 ^ j := by
  by_contra near
  have near := not_lt.mp near
  have one : (1 : ℚ) ≤ 10 ^ n := one_le_pow₀ (by norm_num)
  have whole : 0 ≤ j := by
    by_contra below
    have less : (2 : ℚ) ^ j < 1 := zpow_lt_one_of_neg₀ one_lt_two (not_le.mp below)
    linarith
  obtain ⟨i, rfl⟩ : ∃ i : Nat, j = i := ⟨j.toNat, by omega⟩
  rw [zpow_natCast] at above near
  have le : 10 ^ n ≤ 2 ^ i := by exact_mod_cast above
  have close : 2 ^ 53 * 2 ^ i ≤ (2 ^ 53 + 1) * 10 ^ n := by exact_mod_cast near
  exact two_pow_ne_ten_pow i positive (eq_of_near le (ten_pow_le small) close).symm

theorem not_near_inv_ten_pow (above : ((10 : ℚ) ^ n)⁻¹ ≤ 2 ^ j) :
    (2 ^ 53 + 1) * ((10 : ℚ) ^ n)⁻¹ < 2 ^ 53 * 2 ^ j := by
  by_contra near
  have near := not_lt.mp near
  have tenPositive : (0 : ℚ) < 10 ^ n := by positivity
  have fraction : (10 : ℚ) ^ n * (10 ^ n)⁻¹ = 1 := mul_inv_cancel₀ tenPositive.ne'
  rcases le_or_gt 0 j with whole | below
  · have one : (1 : ℚ) ≤ 2 ^ j := one_le_zpow₀ one_le_two whole
    have ten : (10 : ℚ) ≤ 10 ^ n := by
      exact_mod_cast Nat.le_self_pow positive.ne' 10
    have scaled := mul_le_mul_of_nonneg_left near tenPositive.le
    nlinarith
  · obtain ⟨i, rfl⟩ : ∃ i : Nat, j = -i := ⟨(-j).toNat, by omega⟩
    have twoPositive : (0 : ℚ) < 2 ^ i := by positivity
    rw [zpow_neg, zpow_natCast] at above near
    have le : 2 ^ i ≤ 10 ^ n := by exact_mod_cast (inv_le_inv₀ tenPositive twoPositive).mp above
    have close : 2 ^ 53 * 10 ^ n ≤ (2 ^ 53 + 1) * 2 ^ i := by
      have scaled := mul_le_mul_of_nonneg_left near (mul_pos tenPositive twoPositive).le
      have cast : (2 : ℚ) ^ 53 * 10 ^ n ≤ (2 ^ 53 + 1) * 2 ^ i := by
        field_simp at scaled
        linarith
      exact_mod_cast cast
    exact two_pow_ne_ten_pow i positive (eq_of_near le (le.trans (ten_pow_le small)) close)

end

theorem not_near_ten_zpow {p : ℤ} (nonzero : p ≠ 0) (low : -15 ≤ p) (high : p ≤ 15) (j : ℤ)
    (above : (10 : ℚ) ^ p ≤ 2 ^ j) : (2 ^ 53 + 1) * (10 : ℚ) ^ p < 2 ^ 53 * 2 ^ j := by
  rcases lt_or_gt_of_ne nonzero with negative | positive
  · obtain ⟨n, rfl⟩ : ∃ n : Nat, p = -n := ⟨(-p).toNat, by omega⟩
    rw [zpow_neg, zpow_natCast] at above ⊢
    exact not_near_inv_ten_pow (by omega) (by omega) above
  · obtain ⟨n, rfl⟩ : ∃ n : Nat, p = n := ⟨p.toNat, by omega⟩
    rw [zpow_natCast] at above ⊢
    exact not_near_ten_pow (by omega) (by omega) above

theorem rounded_of_closer_power {v w : ℚ} {k : ℤ} (normal : -1021 ≤ k) (nonneg : 0 ≤ v)
    (nonneg' : 0 ≤ w) (arrives : rounded v = 2 ^ k) (below : v ≤ 2 ^ k)
    (closer : |w - 2 ^ k| ≤ |v - 2 ^ k|) : rounded w = 2 ^ k := by
  have onGrid : OnGrid (2 ^ k) := arrives ▸ onGrid_rounded v
  rw [abs_of_nonpos (by linarith : v - 2 ^ k ≤ 0)] at closer
  rcases le_or_gt w (2 ^ k) with below' | above
  · rw [abs_of_nonpos (by linarith)] at closer
    refine le_antisymm (rounded_le nonneg' onGrid below') ?_
    rw [← arrives]
    exact rounded_le_rounded nonneg (by linarith)
  · rw [abs_of_pos (by linarith)] at closer
    have wider : (2 : ℚ) ^ (k - 53) < 2 ^ (k - 52) :=
      zpow_lt_zpow_right₀ one_lt_two (by omega)
    have unitPositive : (0 : ℚ) < 2 ^ (k - 53) := by positivity
    have close := closest_rounded nonneg (onGrid_before_power normal)
    rw [arrives, abs_of_nonneg (by linarith)] at close
    have near := closest_rounded nonneg' onGrid
    rw [abs_of_neg (by linarith : 2 ^ k - w < 0)] at near
    have atLeast := le_rounded onGrid above.le
    refine eq_power_of_between (onGrid_rounded w) normal (by linarith) ?_
    have high := le_abs_self (rounded w - w)
    rcases abs_cases (2 ^ k - 2 ^ (k - 53) - v) with ⟨same, _⟩ | ⟨same, _⟩ <;> linarith

theorem le_middle_of_rounded {v : ℚ} {k : ℤ} (normal : -1021 ≤ k) (nonneg : 0 ≤ v)
    (arrives : rounded v = 2 ^ k) : v ≤ 2 ^ k + 2 ^ (k - 53) := by
  have unitPositive : (0 : ℚ) < 2 ^ (k - 53) := by positivity
  rcases le_or_gt v (2 ^ k) with below | above
  · linarith
  · have close := closest_rounded nonneg (onGrid_after_power normal)
    rw [arrives, abs_of_neg (by linarith), two_zpow_sub_eq_double] at close
    rcases abs_cases (2 ^ k + 2 * 2 ^ (k - 53) - v) with ⟨same, _⟩ | ⟨same, _⟩ <;> linarith

section

variable {u c : ℚ} (onGrid : OnGrid u) (positive : 0 < c)

include positive in
theorem scaled_le_power_of_below {k : ℤ} (large : 2 ^ (-1022 : ℤ) ≤ u * c)
    (below : u ≤ 2 ^ k - 2 ^ (k - 53)) : rounded (u * c) / c ≤ 2 ^ k := by
  have error := abs_rounded_sub_lt large
  have signed := le_abs_self (rounded (u * c) - u * c)
  have gain : 2 ^ 53 * (rounded (u * c) / c - u) < u := by
    have scaled : 2 ^ 53 * (rounded (u * c) / c - u) * c < u * c := by
      calc 2 ^ 53 * (rounded (u * c) / c - u) * c = 2 ^ 53 * (rounded (u * c) - u * c) := by
            rw [mul_assoc, sub_mul, div_mul_cancel₀ _ positive.ne']
        _ < u * c := by linarith
    exact lt_of_mul_lt_mul_right scaled positive.le
  have unitPositive : (0 : ℚ) < 2 ^ (k - 53) := by positivity
  have unit := two_zpow_eq_mul k
  linarith

include positive in
/-- Coming down to a power of two from the next point takes half a unit of the scaled point. Its
binade would begin above the factor, and just above it by where the fall ends. -/
theorem scaled_le_power_of_above {k : ℤ} (large : 2 ^ (-1022 : ℤ) ≤ u * c)
    (above : 2 ^ k + 2 ^ (k - 52) ≤ u) (middle : rounded (u * c) / c ≤ 2 ^ k + 2 ^ (k - 53))
    (isolated : ∀ j : ℤ, c ≤ 2 ^ j → (2 ^ 53 + 1) * c < 2 ^ 53 * 2 ^ j) :
    rounded (u * c) / c ≤ 2 ^ k := by
  have unitPositive : (0 : ℚ) < 2 ^ (k - 53) := by positivity
  have scaledPositive : 0 < u * c := lt_of_lt_of_le (by positivity) large
  have quotient : rounded (u * c) = rounded (u * c) / c * c := (div_mul_cancel₀ _ positive.ne').symm
  have error := abs_rounded_sub_le scaledPositive
  have long := (le_div_iff₀ (by positivity)).mp (gridExponent_long large)
  have least := gridExponent_ge (u * c)
  generalize gridExponent (u * c) = e at error long least
  have foot : OnGrid (2 ^ 52 * 2 ^ e) := by
    have point := @onGrid_of_le (2 ^ 52) e (by norm_num) least
    rwa [Nat.cast_pow, Nat.cast_ofNat] at point
  have footLe := le_rounded foot long
  have fall : 2 ^ (k - 53) * c ≤ u * c - rounded (u * c) := by
    rw [quotient, ← sub_mul]
    refine mul_le_mul_of_nonneg_right ?_ positive.le
    rw [two_zpow_sub_eq_double] at above
    linarith
  have wide : 2 ^ (k - 53) * c ≤ 2 ^ e / 2 := by
    have signed := neg_abs_le (rounded (u * c) - u * c)
    linarith
  have power : (2 : ℚ) ^ (e + 52 - k) * 2 ^ (k - 53) = 2 ^ e / 2 := by
    rw [← zpow_add₀ two_ne_zero, div_eq_mul_inv, ← zpow_sub_one₀ two_ne_zero]
    congr 1
    ring
  have aboveFactor : c ≤ 2 ^ (e + 52 - k) := by
    refine le_of_mul_le_mul_right ?_ unitPositive
    rw [power, mul_comm]
    exact wide
  have farAbove := mul_lt_mul_of_pos_right (isolated _ aboveFactor) unitPositive
  rw [mul_assoc, mul_assoc, power] at farAbove
  have high := mul_le_mul_of_nonneg_right middle positive.le
  rw [← quotient, two_zpow_eq_mul k] at high
  linarith

include onGrid positive

/-- A point that is scaled, rounded and scaled back arrives at a power of two from below or at that
power itself, unless a power of two lies just above the factor. -/
theorem scaled_le_power {k : ℤ} (normal : -1021 ≤ k) (large : 2 ^ (-1022 : ℤ) ≤ u * c)
    (other : u ≠ 2 ^ k) (arrives : rounded (rounded (u * c) / c) = 2 ^ k)
    (isolated : ∀ j : ℤ, c ≤ 2 ^ j → (2 ^ 53 + 1) * c < 2 ^ 53 * 2 ^ j) :
    rounded (u * c) / c ≤ 2 ^ k := by
  rcases le_or_gt u (2 ^ k - 2 ^ (k - 53)) with below | notBelow
  · exact scaled_le_power_of_below positive large below
  · have nonneg : 0 ≤ rounded (u * c) / c := div_nonneg (rounded_nonneg _) positive.le
    have atLeast : 2 ^ k + 2 ^ (k - 52) ≤ u := by
      by_contra less
      exact other (eq_power_of_between onGrid normal notBelow (not_le.mp less))
    exact scaled_le_power_of_above positive large atLeast
      (le_middle_of_rounded normal nonneg arrives) isolated

/-- The second pass comes back to where the first one arrives. -/
theorem rounded_scaled_back (normal : (2 : ℚ) ^ (-1022 : ℤ) ≤ u * c)
    (arrives : 1 ≤ rounded (u * c) / c)
    (isolated : ∀ j : ℤ, c ≤ 2 ^ j → (2 ^ 53 + 1) * c < 2 ^ 53 * 2 ^ j) :
    rounded (rounded (rounded (rounded (u * c) / c) * c) / c) = rounded (rounded (u * c) / c) := by
  obtain ⟨once, onceEq⟩ : ∃ once, once = rounded (u * c) / c := ⟨_, rfl⟩
  rw [← onceEq] at arrives ⊢
  have scaled : rounded (u * c) = once * c := by rw [onceEq, div_mul_cancel₀ _ positive.ne']
  have oncePositive : 0 < once := by linarith
  obtain ⟨point, pointEq⟩ : ∃ point, point = rounded once := ⟨_, rfl⟩
  rw [← pointEq]
  have onePoint : 1 ≤ point := by
    have one := @onGrid_natCast 1 (by norm_num)
    rw [Nat.cast_one] at one
    exact pointEq ▸ le_rounded one arrives
  have pointPositive : 0 < point * c := mul_pos (by linarith) positive
  obtain ⟨again, againEq⟩ : ∃ again, again = rounded (point * c) / c := ⟨_, rfl⟩
  rw [← againEq]
  have rescaled : rounded (point * c) = again * c := by rw [againEq, div_mul_cancel₀ _ positive.ne']
  -- the first result is on the grid, so the second one is as near to its point
  have closer : |again - point| ≤ |once - point| := by
    have close := closest_rounded pointPositive.le (onGrid_rounded (u * c))
    rw [rescaled, scaled, ← sub_mul, ← sub_mul, abs_mul, abs_mul, abs_of_pos positive] at close
    exact le_of_mul_le_mul_right close positive
  have relative := abs_rounded_sub_lt
    (le_trans (zpow_le_one_of_nonpos₀ one_le_two (by norm_num)) arrives)
  rw [← pointEq, abs_sub_comm] at relative
  have againPositive : 0 < again := by
    have low := neg_abs_le (again - point)
    have low' := le_abs_self (once - point)
    linarith
  by_cases same : u = point
  · rw [← same, scaled] at rescaled
    have equal : once = again := mul_right_cancel₀ positive.ne' rescaled
    rw [← equal, pointEq]
  by_cases isPower : ∃ k : ℤ, point = 2 ^ k
  · obtain ⟨k, power⟩ := isPower
    have whole : 0 ≤ k := by
      by_contra below
      have less : (2 : ℚ) ^ k < 1 := zpow_lt_one_of_neg₀ one_lt_two (not_le.mp below)
      linarith
    have atMost : once ≤ 2 ^ k := by
      rw [onceEq]
      refine scaled_le_power onGrid positive (by omega) normal (power ▸ same) ?_ isolated
      rw [← onceEq, ← pointEq, power]
    rw [power] at closer pointEq ⊢
    exact rounded_of_closer_power (by omega) oncePositive.le againPositive.le pointEq.symm atMost
      closer
  · rw [pointEq]
    refine rounded_of_closer oncePositive againPositive (fun k power => isPower ⟨k, ?_⟩) ?_
    · rw [pointEq, power]
    · rw [← pointEq]
      exact closer

end

end Worksheet.Magnitude
