import Mathlib
import Worksheet.Proofs.Number.Grid
import Worksheet.Proofs.Number.ReadBack

/-!
# Rounding a rational to the grid

The bits that a quotient rounds to depend on its value alone, so rounding is a function of
rationals. Its result is a closest point of the grid, and everything else follows from that: points
stay, the order is kept, and the error is at most half a unit. Overflow is left out here; a quotient
whose bits are those of infinity or more rounds to infinity.
-/

set_option autoImplicit false

namespace Worksheet

/-- The natural is nearest to the rational, and even if another one is as near. -/
structure IsHalfEven (m : Nat) (v : ℚ) : Prop where
  low : 2 * m - 1 ≤ 2 * v
  high : 2 * v ≤ 2 * m + 1
  even_of_low : 2 * m - 1 = 2 * v → m % 2 = 0
  even_of_high : 2 * v = 2 * m + 1 → m % 2 = 0

namespace IsHalfEven

variable {m k : Nat} {v : ℚ}

theorem natCast (m : Nat) : IsHalfEven m m :=
  ⟨by linarith, by linarith, fun same => by linarith, fun same => by linarith⟩

theorem abs_sub_le (isHalfEven : IsHalfEven m v) : |(m : ℚ) - v| ≤ 1 / 2 := by
  have low := isHalfEven.low
  have high := isHalfEven.high
  rw [abs_le]
  constructor <;> linarith

theorem not_lt (first : IsHalfEven m v) (second : IsHalfEven k v) : ¬ m < k := by
  intro less
  have low := second.low
  have high := first.high
  have atMost : k ≤ m + 1 := by
    have cast : (k : ℚ) ≤ m + 1 := by linarith
    exact_mod_cast cast
  have next : k = m + 1 := by omega
  have cast : (k : ℚ) = m + 1 := by exact_mod_cast next
  have even := first.even_of_high (by linarith)
  have even' := second.even_of_low (by linarith)
  omega

theorem unique (first : IsHalfEven m v) (second : IsHalfEven k v) : m = k :=
  le_antisymm (Nat.le_of_not_lt (second.not_lt first)) (Nat.le_of_not_lt (first.not_lt second))

theorem le_of_natCast_le (isHalfEven : IsHalfEven m v) (le : (k : ℚ) ≤ v) : k ≤ m := by
  by_contra less
  have cast : (m : ℚ) + 1 ≤ k := by exact_mod_cast not_le.mp less
  linarith [isHalfEven.high]

theorem le_of_lt_natCast (isHalfEven : IsHalfEven m v) (less : v < k) : m ≤ k := by
  by_contra more
  have cast : (k : ℚ) + 1 ≤ m := by exact_mod_cast not_le.mp more
  linarith [isHalfEven.low]

theorem closest (isHalfEven : IsHalfEven m v) (k : Nat) : |(m : ℚ) - v| ≤ |(k : ℚ) - v| := by
  have near := isHalfEven.abs_sub_le
  rcases Nat.lt_trichotomy k m with less | rfl | more
  · have cast : (k : ℚ) + 1 ≤ m := by exact_mod_cast less
    have low := isHalfEven.low
    rw [abs_of_nonpos (by linarith : (k : ℚ) - v ≤ 0)]
    refine abs_le.mpr ⟨?_, ?_⟩ <;> linarith
  · exact le_rfl
  · have cast : (m : ℚ) + 1 ≤ k := by exact_mod_cast more
    have high := isHalfEven.high
    rw [abs_of_nonneg (by linarith : 0 ≤ (k : ℚ) - v)]
    refine abs_le.mpr ⟨?_, ?_⟩ <;> linarith

theorem of_abs_sub_le {w : ℚ} (isHalfEven : IsHalfEven m v) (near : |w - m| ≤ |v - m|) :
    IsHalfEven m w := by
  obtain ⟨low, high, evenLow, evenHigh⟩ := isHalfEven
  have half : |v - m| ≤ 1 / 2 := abs_le.mpr ⟨by linarith, by linarith⟩
  obtain ⟨above, below⟩ := abs_le.mp (near.trans half)
  have even (far : 1 / 2 ≤ |w - m|) : m % 2 = 0 := by
    rcases abs_choice (v - m) with same | same
    · exact evenHigh (by linarith)
    · exact evenLow (by linarith)
  refine ⟨by linarith, by linarith, fun tie => even ?_, fun tie => even ?_⟩
  · rw [abs_of_nonpos (by linarith)]
    linarith
  · rw [abs_of_nonneg (by linarith)]
    linarith

end IsHalfEven

section Quotient

variable {n d : Nat} (positive : 0 < d)
include positive

theorem div_eq_whole_add (n : Nat) : (n : ℚ) / d = (n / d : Nat) + (n % d : Nat) / d := by
  have denominator : (d : ℚ) ≠ 0 := by exact_mod_cast positive.ne'
  have whole : (n : ℚ) = d * (n / d : Nat) + (n % d : Nat) := by
    exact_mod_cast (Nat.div_add_mod n d).symm
  rw [whole, add_div, mul_div_cancel_left₀ _ denominator]

theorem mod_div_lt_one (n : Nat) : ((n % d : Nat) : ℚ) / d < 1 := by
  have denominator : (0 : ℚ) < d := by exact_mod_cast positive
  rw [div_lt_one denominator]
  exact_mod_cast Nat.mod_lt n positive

theorem div_lt_half_iff : (n : ℚ) / d < 1 / 2 ↔ 2 * n < d := by
  have denominator : (0 : ℚ) < d := by exact_mod_cast positive
  rw [div_lt_div_iff₀ denominator two_pos, one_mul, mul_comm]
  exact_mod_cast Iff.rfl

theorem half_lt_div_iff : 1 / 2 < (n : ℚ) / d ↔ d < 2 * n := by
  have denominator : (0 : ℚ) < d := by exact_mod_cast positive
  rw [div_lt_div_iff₀ two_pos denominator, one_mul, mul_comm]
  exact_mod_cast Iff.rfl

theorem div_eq_half_iff : (n : ℚ) / d = 1 / 2 ↔ 2 * n = d := by
  have denominator : (d : ℚ) ≠ 0 := by exact_mod_cast positive.ne'
  rw [div_eq_div_iff denominator two_ne_zero, one_mul, mul_comm]
  exact_mod_cast Iff.rfl

theorem isHalfEven_roundDiv : IsHalfEven (roundDiv .toEven n d) (n / d) := by
  have fraction : (0 : ℚ) ≤ (n % d : Nat) / d := by positivity
  have belowOne := mod_div_lt_one positive n
  have succ : ((n / d + 1 : Nat) : ℚ) = (n / d : Nat) + 1 := Nat.cast_succ _
  rw [div_eq_whole_add positive]
  rcases roundDiv_cases .toEven n d with ⟨less, rounds⟩ | ⟨tie, rounds⟩ | ⟨more, rounds⟩ <;>
    rw [rounds]
  · have half := (div_lt_half_iff positive).mpr less
    exact ⟨by linarith, by linarith, fun same => by linarith, fun same => by linarith⟩
  · rw [(div_eq_half_iff positive).mpr tie]
    by_cases even : n / d % 2 = 0
    · simp only [Tie.settle, even, if_true]
      exact ⟨by linarith, by linarith, fun _ => even, fun _ => even⟩
    · simp only [Tie.settle, even, if_false]
      have next : (n / d + 1) % 2 = 0 := by omega
      exact ⟨by linarith, by linarith, fun _ => next, fun _ => next⟩
  · have half := (half_lt_div_iff positive).mpr more
    exact ⟨by linarith, by linarith, fun same => by linarith, fun same => by linarith⟩

end Quotient

def halfEven (v : ℚ) : Nat :=
  roundDiv .toEven v.num.toNat v.den

theorem num_toNat_div_den {v : ℚ} (nonneg : 0 ≤ v) : (v.num.toNat : ℚ) / v.den = v := by
  have numerator : (v.num.toNat : ℤ) = v.num := Int.toNat_of_nonneg (Rat.num_nonneg.mpr nonneg)
  have cast : (v.num.toNat : ℚ) = v.num := by exact_mod_cast numerator
  rw [cast, Rat.num_div_den]

theorem isHalfEven_halfEven {v : ℚ} (nonneg : 0 ≤ v) : IsHalfEven (halfEven v) v := by
  have rounded := @isHalfEven_roundDiv v.num.toNat v.den v.den_pos
  rwa [num_toNat_div_den nonneg] at rounded

namespace Magnitude

/-! ## The nearest point of the grid -/

def gridExponent (v : ℚ) : ℤ :=
  max (-1074) (Int.log 2 v - 52)

def roundedBits (v : ℚ) : Nat :=
  if v = 0 then 0
  else (gridExponent v + 1074).toNat * 2 ^ 52 + halfEven (v / 2 ^ gridExponent v)

def rounded (v : ℚ) : ℚ :=
  point (roundedBits v)

theorem onGrid_rounded (v : ℚ) : OnGrid (rounded v) :=
  onGrid_point _

theorem rounded_nonneg (v : ℚ) : 0 ≤ rounded v :=
  point_nonneg _

@[simp]
theorem roundedBits_zero : roundedBits 0 = 0 := if_pos rfl

@[simp]
theorem rounded_zero : rounded 0 = 0 := by
  rw [rounded, roundedBits_zero, point_zero]

theorem gridExponent_ge (v : ℚ) : -1074 ≤ gridExponent v :=
  le_max_left _ _

section Positive

variable {v : ℚ} (positive : 0 < v)
include positive

theorem log_bounds : (2 : ℚ) ^ Int.log 2 v ≤ v ∧ v < 2 ^ (Int.log 2 v + 1) := by
  have low := Int.zpow_log_le_self (b := 2) (by norm_num) positive
  have high := Int.lt_zpow_succ_log_self (b := 2) (by norm_num) v
  exact ⟨by exact_mod_cast low, by exact_mod_cast high⟩

theorem log_eq_iff {e : ℤ} : Int.log 2 v = e ↔ (2 : ℚ) ^ e ≤ v ∧ v < 2 ^ (e + 1) := by
  obtain ⟨low, high⟩ := log_bounds positive
  constructor
  · rintro rfl
    exact ⟨low, high⟩
  · rintro ⟨atLeast, below⟩
    have first := (zpow_lt_zpow_iff_right₀ (one_lt_two (α := ℚ))).mp (low.trans_lt below)
    have second := (zpow_lt_zpow_iff_right₀ (one_lt_two (α := ℚ))).mp (atLeast.trans_lt high)
    omega

theorem gridExponent_spec :
    v / 2 ^ gridExponent v < 2 ^ 53 ∧
      ((2 : ℚ) ^ 52 ≤ v / 2 ^ gridExponent v ∨ gridExponent v = -1074) := by
  obtain ⟨low, high⟩ := log_bounds positive
  have unit : (0 : ℚ) < 2 ^ gridExponent v := by positivity
  constructor
  · rw [div_lt_iff₀ unit, ← zpow_natCast, ← zpow_add₀ two_ne_zero]
    refine high.trans_le (zpow_le_zpow_right₀ one_le_two ?_)
    unfold gridExponent
    push_cast
    omega
  · rcases le_or_gt (Int.log 2 v - 52) (-1074) with small | large
    · exact .inr (max_eq_left small)
    · left
      have same : gridExponent v = Int.log 2 v - 52 := max_eq_right large.le
      rw [same, le_div_iff₀ (by positivity), ← zpow_natCast, ← zpow_add₀ two_ne_zero]
      refine le_of_eq_of_le ?_ low
      congr 1
      push_cast
      ring

theorem gridExponent_eq {e : ℤ} (least : -1074 ≤ e) (below : v / 2 ^ e < 2 ^ 53)
    (normal : (2 : ℚ) ^ 52 ≤ v / 2 ^ e ∨ e = -1074) : gridExponent v = e := by
  have unit : (0 : ℚ) < 2 ^ e := by positivity
  obtain ⟨low, high⟩ := log_bounds positive
  rw [div_lt_iff₀ unit, ← zpow_natCast, ← zpow_add₀ two_ne_zero] at below
  have atMost := (zpow_lt_zpow_iff_right₀ (one_lt_two (α := ℚ))).mp (low.trans_lt below)
  unfold gridExponent
  push_cast at atMost
  rcases normal with long | rfl
  · rw [le_div_iff₀ unit, ← zpow_natCast, ← zpow_add₀ two_ne_zero] at long
    have atLeast := (zpow_lt_zpow_iff_right₀ (one_lt_two (α := ℚ))).mp (long.trans_lt high)
    push_cast at atLeast
    omega
  · omega

theorem roundedBits_spec :
    ∃ m : Nat, m ≤ 2 ^ 53 ∧ IsHalfEven m (v / 2 ^ gridExponent v) ∧
      roundedBits v = (gridExponent v + 1074).toNat * 2 ^ 52 + m ∧
        rounded v = m * 2 ^ gridExponent v := by
  obtain ⟨below, normal⟩ := gridExponent_spec positive
  have quotient : 0 ≤ v / 2 ^ gridExponent v := by positivity
  have isHalfEven := isHalfEven_halfEven quotient
  have small : halfEven (v / 2 ^ gridExponent v) ≤ 2 ^ 53 :=
    isHalfEven.le_of_lt_natCast (by exact_mod_cast below)
  have long : 2 ^ 52 ≤ halfEven (v / 2 ^ gridExponent v) ∨ gridExponent v = -1074 :=
    normal.imp_left fun long => isHalfEven.le_of_natCast_le (by exact_mod_cast long)
  have bits : roundedBits v = _ := if_neg positive.ne'
  exact ⟨_, small, isHalfEven, bits, by rw [rounded, bits, point_eq small (gridExponent_ge v) long]⟩

theorem roundedBits_eq {m : Nat} {e : ℤ} (least : -1074 ≤ e) (below : v / 2 ^ e < 2 ^ 53)
    (normal : (2 : ℚ) ^ 52 ≤ v / 2 ^ e ∨ e = -1074) (isHalfEven : IsHalfEven m (v / 2 ^ e)) :
    roundedBits v = (e + 1074).toNat * 2 ^ 52 + m := by
  obtain ⟨m', _, isHalfEven', bits, _⟩ := roundedBits_spec positive
  rw [gridExponent_eq positive least below normal] at bits isHalfEven'
  rw [bits, isHalfEven'.unique isHalfEven]

end Positive

theorem gridExponent_long {v : ℚ} (normal : (2 : ℚ) ^ (-1022 : ℤ) ≤ v) :
    (2 : ℚ) ^ 52 ≤ v / 2 ^ gridExponent v := by
  have positive : 0 < v := lt_of_lt_of_le (by positivity) normal
  rcases (gridExponent_spec positive).2 with long | least
  · exact long
  · rw [least, le_div_iff₀ (by positivity), ← zpow_natCast, ← zpow_add₀ two_ne_zero]
    exact normal

theorem binaryExponent_eq {n d : Nat} (numerator : 0 < n) (denominator : 0 < d) :
    binaryExponent n d = Int.log 2 ((n : ℚ) / d) := by
  have positive : (0 : ℚ) < n / d := by
    have first : (0 : ℚ) < n := by exact_mod_cast numerator
    have second : (0 : ℚ) < d := by exact_mod_cast denominator
    positivity
  exact ((log_eq_iff positive).mpr (binaryExponent_spec numerator denominator)).symm

/-- Rounding a quotient rounds its value, up to infinity. -/
theorem nearestBits_eq_min {n d : Nat} (denominator : 0 < d) :
    nearestBits n d = min (roundedBits (n / d)) (2047 * 2 ^ 52) := by
  rcases Nat.eq_zero_or_pos n with rfl | numerator
  · simp [nearestBits]
  · have first : (0 : ℚ) < n := by exact_mod_cast numerator
    have second : (0 : ℚ) < d := by exact_mod_cast denominator
    have positive : (0 : ℚ) < n / d := by positivity
    obtain ⟨m, _, isHalfEven, bits, _⟩ := roundedBits_spec positive
    have exponent : max (-1074) (binaryExponent n d - 52) = gridExponent ((n : ℚ) / d) := by
      rw [binaryExponent_eq numerator denominator, gridExponent]
    rw [nearestBits, if_neg numerator.ne', bits]
    simp only [exponent]
    generalize gridExponent ((n : ℚ) / d) = e at isHalfEven
    have unit : (0 : ℚ) < 2 ^ e := by positivity
    have scaled : (n : ℚ) / d = (n : ℚ) / d / 2 ^ e * 2 ^ e := (div_mul_cancel₀ _ unit.ne').symm
    have mantissa : roundDiv .toEven (n * Nat.pow 2 (-e).toNat) (d * Nat.pow 2 e.toNat) = m := by
      refine roundDiv_scaled denominator ?_ ?_ (fun tie => isHalfEven.even_of_low ?_)
        fun tie => isHalfEven.even_of_high ?_
      · rw [scaled, ← mul_assoc]
        exact mul_le_mul_of_nonneg_right isHalfEven.low unit.le
      · rw [scaled, ← mul_assoc]
        exact mul_le_mul_of_nonneg_right isHalfEven.high unit.le
      · rw [scaled, ← mul_assoc] at tie
        exact mul_right_cancel₀ unit.ne' tie
      · rw [scaled, ← mul_assoc] at tie
        exact mul_right_cancel₀ unit.ne' tie
    rw [mantissa]
    rfl

theorem abs_mul_zpow_sub (w v : ℚ) (e : ℤ) : |w * 2 ^ e - v| = |w - v / 2 ^ e| * 2 ^ e := by
  have unit : (0 : ℚ) < 2 ^ e := by positivity
  rw [← abs_of_pos unit, ← abs_mul, abs_of_pos unit, sub_mul, div_mul_cancel₀ _ unit.ne']

/-- No point of the grid is closer to a rational than the one it rounds to. A point of a lower
exponent lies below the power of two at which the exponent of the rational begins. -/
theorem closest_rounded {v w : ℚ} (nonneg : 0 ≤ v) (onGrid : OnGrid w) :
    |rounded v - v| ≤ |w - v| := by
  rcases nonneg.eq_or_lt with rfl | positive
  · simp
  · obtain ⟨m, _, isHalfEven, _, value⟩ := roundedBits_spec positive
    obtain ⟨below, normal⟩ := gridExponent_spec positive
    obtain ⟨bits, rfl⟩ := onGrid
    obtain ⟨small, least, _, _⟩ := canonical_ofBits bits
    rw [value]
    generalize gridExponent v = e at isHalfEven below normal
    have unit : (0 : ℚ) < 2 ^ e := by positivity
    -- A point is a multiple of the unit around the rational, or it lies below all of its binade.
    rcases le_or_gt e (ofBits bits).exponent with coarser | finer
    · obtain ⟨steps, exponent⟩ : ∃ steps : Nat, (ofBits bits).exponent = steps + e :=
        ⟨((ofBits bits).exponent - e).toNat, by omega⟩
      have multiple : point bits = ((ofBits bits).mantissa * 2 ^ steps : Nat) * 2 ^ e := by
        rw [point, Magnitude.value, exponent, zpow_add₀ two_ne_zero, zpow_natCast]
        push_cast
        ring
      rw [multiple, abs_mul_zpow_sub, abs_mul_zpow_sub]
      exact mul_le_mul_of_nonneg_right (isHalfEven.closest _) unit.le
    · have long := normal.resolve_right (by omega)
      have foot : (2 : ℚ) ^ 52 * 2 ^ e ≤ v := (le_div_iff₀ unit).mp long
      have atMost : point bits ≤ 2 ^ 52 * 2 ^ e := by
        have cast : ((ofBits bits).mantissa : ℚ) ≤ 2 ^ 53 := by exact_mod_cast small.le
        calc point bits ≤ 2 ^ 53 * 2 ^ (ofBits bits).exponent :=
              mul_le_mul_of_nonneg_right cast (by positivity)
          _ ≤ 2 ^ 53 * 2 ^ (e - 1) := by
              have exponents := zpow_le_zpow_right₀ (one_le_two (α := ℚ))
                (by omega : (ofBits bits).exponent ≤ e - 1)
              linarith
          _ = 2 ^ 52 * 2 ^ e := by
              rw [zpow_sub_one₀ two_ne_zero]
              ring
      have nearer := mul_le_mul_of_nonneg_right (isHalfEven.closest (2 ^ 52)) unit.le
      rw [← abs_mul_zpow_sub, ← abs_mul_zpow_sub, Nat.cast_pow, Nat.cast_ofNat] at nearer
      rw [abs_of_nonpos (by linarith : (2 : ℚ) ^ 52 * 2 ^ e - v ≤ 0)] at nearer
      rw [abs_of_nonpos (by linarith : point bits - v ≤ 0)]
      linarith

/-! ## What follows from closeness -/

theorem rounded_of_onGrid {v : ℚ} (onGrid : OnGrid v) : rounded v = v := by
  have close := closest_rounded onGrid.nonneg onGrid
  rw [sub_self, abs_zero] at close
  exact sub_eq_zero.mp (abs_nonpos_iff.mp close)

theorem roundedBits_point (bits : Nat) : roundedBits (point bits) = bits :=
  point_injective (rounded_of_onGrid (onGrid_point bits))

theorem rounded_le_rounded {v w : ℚ} (nonneg : 0 ≤ v) (le : v ≤ w) : rounded v ≤ rounded w := by
  rcases le.eq_or_lt with rfl | less
  · exact le_rfl
  · -- If the results were swapped, both rationals would lie at or beyond their middle.
    by_contra swapped
    have first := closest_rounded nonneg (onGrid_rounded w)
    have second := closest_rounded (nonneg.trans le) (onGrid_rounded v)
    rcases abs_cases (rounded v - v) with ⟨h1, _⟩ | ⟨h1, _⟩ <;>
      rcases abs_cases (rounded w - v) with ⟨h2, _⟩ | ⟨h2, _⟩ <;>
        rcases abs_cases (rounded w - w) with ⟨h3, _⟩ | ⟨h3, _⟩ <;>
          rcases abs_cases (rounded v - w) with ⟨h4, _⟩ | ⟨h4, _⟩ <;> linarith

theorem rounded_le {v w : ℚ} (nonneg : 0 ≤ v) (onGrid : OnGrid w) (le : v ≤ w) :
    rounded v ≤ w :=
  rounded_of_onGrid onGrid ▸ rounded_le_rounded nonneg le

theorem le_rounded {v w : ℚ} (onGrid : OnGrid w) (le : w ≤ v) : w ≤ rounded v := by
  conv_lhs => rw [← rounded_of_onGrid onGrid]
  exact rounded_le_rounded onGrid.nonneg le

/-- The points on both sides of a point are equally far, unless it is a power of two. So a rational
that is as near to such a point as one that rounds to it does so as well. -/
theorem rounded_of_closer {v w : ℚ} (positive : 0 < v) (other : 0 < w)
    (notPower : ∀ k : ℤ, rounded v ≠ 2 ^ k) (closer : |w - rounded v| ≤ |v - rounded v|) :
    rounded w = rounded v := by
  obtain ⟨m, small, isHalfEven, bits, value⟩ := roundedBits_spec positive
  have normal := (gridExponent_spec positive).2
  have least := gridExponent_ge v
  rw [value] at closer notPower
  generalize gridExponent v = e at isHalfEven bits normal closer least notPower
  have unit : (0 : ℚ) < 2 ^ e := by positivity
  have short : m ≠ 2 ^ 53 := by
    rintro rfl
    refine notPower (53 + e) ?_
    rw [zpow_add₀ two_ne_zero]
    norm_cast
  have long : 2 ^ 52 < m ∨ e = -1074 := by
    refine normal.imp_left fun normal => ?_
    refine lt_of_le_of_ne (isHalfEven.le_of_natCast_le (by exact_mod_cast normal)) ?_
    rintro rfl
    refine notPower (52 + e) ?_
    rw [zpow_add₀ two_ne_zero]
    norm_cast
  rw [abs_sub_comm, abs_mul_zpow_sub, abs_sub_comm v, abs_mul_zpow_sub] at closer
  have nearer := le_of_mul_le_mul_right closer unit
  rw [abs_sub_comm, abs_sub_comm (m : ℚ)] at nearer
  have isHalfEven' := isHalfEven.of_abs_sub_le nearer
  have above : (m : ℚ) + 1 ≤ 2 ^ 53 := by exact_mod_cast lt_of_le_of_ne small short
  have below : w / 2 ^ e < 2 ^ 53 := by linarith [isHalfEven'.high]
  have normal' : (2 : ℚ) ^ 52 ≤ w / 2 ^ e ∨ e = -1074 := by
    refine long.imp_left fun long => ?_
    have cast : (2 : ℚ) ^ 52 + 1 ≤ m := by exact_mod_cast long
    linarith [isHalfEven'.low]
  rw [rounded, rounded, bits, roundedBits_eq other least below normal' isHalfEven']

theorem abs_rounded_sub_le {v : ℚ} (positive : 0 < v) :
    |rounded v - v| ≤ 2 ^ gridExponent v / 2 := by
  obtain ⟨m, _, isHalfEven, _, value⟩ := roundedBits_spec positive
  have unit : (0 : ℚ) < 2 ^ gridExponent v := by positivity
  rw [value, abs_mul_zpow_sub]
  have half := mul_le_mul_of_nonneg_right isHalfEven.abs_sub_le unit.le
  linarith

theorem abs_rounded_sub_lt {v : ℚ} (normal : (2 : ℚ) ^ (-1022 : ℤ) ≤ v) :
    2 ^ 53 * |rounded v - v| < v := by
  have positive : 0 < v := lt_of_lt_of_le (by positivity) normal
  obtain ⟨m, _, isHalfEven, _, value⟩ := roundedBits_spec positive
  have long := gridExponent_long normal
  rw [value]
  generalize gridExponent v = e at isHalfEven long
  have unit : (0 : ℚ) < 2 ^ e := by positivity
  have half := isHalfEven.abs_sub_le
  have strict : 2 ^ 53 * |(m : ℚ) - v / 2 ^ e| < v / 2 ^ e := by
    rcases long.eq_or_lt with foot | above
    · -- a power of two is a point itself
      have exact : m = 2 ^ 52 := by
        refine isHalfEven.unique ?_
        rw [← foot]
        exact_mod_cast IsHalfEven.natCast (2 ^ 52)
      rw [← foot, exact]
      norm_num
    · linarith
  calc 2 ^ 53 * |(m : ℚ) * 2 ^ e - v| = 2 ^ 53 * |(m : ℚ) - v / 2 ^ e| * 2 ^ e := by
        rw [abs_mul_zpow_sub, mul_assoc]
    _ < v / 2 ^ e * 2 ^ e := mul_lt_mul_of_pos_right strict unit
    _ = v := div_mul_cancel₀ _ unit.ne'

end Magnitude

end Worksheet
