import Mathlib
import Worksheet.Number.Places
import Worksheet.Proofs.Number.Order
import Worksheet.Proofs.Number.Scaling

/-!
# Rounding to places

Rounding to decimal places scales a number by a power of ten, snaps the result to fifteen digits,
takes the nearest whole number and scales back. When a number that was rounded before is scaled
again, the whole number of the first pass is on the grid and among the decimals of fifteen digits,
so each of the three roundings can at most double the distance to it.
-/

set_option autoImplicit false

namespace Worksheet

theorem cast_ten_pow (n : Nat) : ((Nat.pow 10 n : Nat) : ℚ) = 10 ^ (n : ℤ) := by
  rw [zpow_natCast]
  exact_mod_cast rfl

theorem Decimal.value_nonneg (d : Decimal) : 0 ≤ d.value := by
  unfold Decimal.value
  positivity

namespace Magnitude

theorem rounded_of_small {v : ℚ} (nonneg : 0 ≤ v) (small : v < 2 ^ (-1075 : ℤ)) :
    rounded v = 0 := by
  have close := closest_rounded nonneg onGrid_zero
  rw [zero_sub, abs_neg, abs_of_nonneg nonneg] at close
  have high := le_abs_self (rounded v - v)
  have least : point 1 = 2 ^ (-1074 : ℤ) := by
    have first := @point_eq 1 (-1074) (by norm_num) le_rfl (.inr rfl)
    rwa [Nat.cast_one, one_mul] at first
  have half : (2 : ℚ) ^ (-1074 : ℤ) = 2 * 2 ^ (-1075 : ℤ) := by
    rw [← zpow_one_add₀ two_ne_zero]
    norm_num
  have below : roundedBits v < 1 := by
    rw [← point_strictMono.lt_iff_lt, least, half]
    change rounded v < _
    linarith
  rw [rounded, Nat.lt_one_iff.mp below, point_zero]

end Magnitude

/-- A decimal is read as the number nearest to it; the shortcuts for very small and very large
decimals change nothing. -/
theorem Decimal.toFloat_eq_rounding (d : Decimal) (negative : Bool) :
    d.toFloat negative = rounding negative d.value := by
  have zero : nearest negative 0 1 = rounding negative 0 := by
    rw [nearest_eq_rounding negative one_pos, Nat.cast_zero, zero_div]
  unfold Decimal.toFloat
  simp only []
  by_cases none : d.digits = 0
  · rw [if_pos (by simp [none]), zero, Decimal.value, none, Nat.cast_zero, zero_mul]
  by_cases small : ((digitChars d.digits).length + d.exponent : ℤ) ≤ -324
  · rw [if_pos (by simp [small]), zero]
    refine rounding_congr ?_
    rw [Magnitude.rounded_zero, Magnitude.rounded_of_small d.value_nonneg]
    calc d.value < 10 ^ ((digitChars d.digits).length + d.exponent : ℤ) := d.value_lt
      _ ≤ 10 ^ (-324 : ℤ) := zpow_le_zpow_right₀ (by norm_num) small
      _ < 2 ^ (-1075 : ℤ) := by
          rw [zpow_neg, zpow_neg]
          exact inv_strictAnti₀ (by positivity) (by exact_mod_cast two_pow_lt_ten_pow)
  rw [if_neg (by simp [none, small])]
  by_cases large : (310 : ℤ) ≤ (digitChars d.digits).length + d.exponent
  · have infinite : (2 : ℚ) ^ (1024 : ℤ) ≤ 10 ^ (309 : ℤ) := by
      exact_mod_cast two_pow_lt_ten_pow'.le
    obtain ⟨limit, limitEq⟩ : ∃ limit : Nat, limit = 310 := ⟨_, rfl⟩
    rw [if_pos large, ← limitEq, nearest_eq_rounding negative one_pos, Nat.cast_one, div_one,
      cast_ten_pow]
    refine rounding_of_large (infinite.trans ?_) (infinite.trans ?_)
    · exact zpow_le_zpow_right₀ (by norm_num) (by omega)
    · exact (zpow_le_zpow_right₀ (by norm_num) (by omega)).trans
        (Decimal.le_value (Nat.pos_of_ne_zero none))
  · rw [if_neg large, nearest_eq_rounding negative d.denominator_pos,
      Decimal.numerator_div_denominator]

namespace Magnitude

theorem numerator_div_denominator (x : Magnitude) :
    (x.numerator : ℚ) / x.denominator = x.value := by
  have numerator : (x.numerator : ℚ) = x.mantissa * 2 ^ x.exponent.toNat := by
    exact_mod_cast rfl
  have denominator : (x.denominator : ℚ) = 2 ^ (-x.exponent).toNat := by
    exact_mod_cast rfl
  rw [numerator, denominator, value, zpow_eq_div two_ne_zero, mul_div_assoc]

theorem denominator_pos (x : Magnitude) : 0 < x.denominator :=
  Nat.pow_pos (by decide)

theorem isHalfEven_digitsAt (x : Magnitude) (place : ℤ) :
    IsHalfEven (x.digitsAt .toEven place) (x.value / 10 ^ place) := by
  have positive : 0 < x.denominator * Nat.pow 10 place.toNat :=
    Nat.mul_pos x.denominator_pos (Nat.pow_pos (by decide))
  have rounded := @isHalfEven_roundDiv (x.numerator * Nat.pow 10 (-place).toNat) _ positive
  have quotient : ((x.numerator * Nat.pow 10 (-place).toNat : Nat) : ℚ) /
      (x.denominator * Nat.pow 10 place.toNat : Nat) = x.value / 10 ^ place := by
    rw [← x.numerator_div_denominator, zpow_eq_div (by norm_num) place, Nat.cast_mul, Nat.cast_mul,
      cast_ten_pow, cast_ten_pow, zpow_natCast, zpow_natCast]
    have denominator : (x.denominator : ℚ) ≠ 0 := by exact_mod_cast x.denominator_pos.ne'
    field_simp
  rwa [quotient] at rounded

theorem decimalScale_le {x : Magnitude} {scale : Nat} (below : x.value < 10 ^ scale) :
    x.decimalScale ≤ scale := by
  have positive : (0 : ℚ) < x.denominator := by exact_mod_cast x.denominator_pos
  have small (more : Nat) :
      x.numerator * Nat.pow 10 more / x.denominator < 10 ^ (more + scale) := by
    rw [Nat.div_lt_iff_lt_mul x.denominator_pos, Nat.pow_add]
    rw [← x.numerator_div_denominator, div_lt_iff₀ positive] at below
    have cast : x.numerator < 10 ^ scale * x.denominator := by exact_mod_cast below
    calc x.numerator * Nat.pow 10 more < 10 ^ scale * x.denominator * 10 ^ more :=
          Nat.mul_lt_mul_of_pos_right cast (Nat.pow_pos (by decide))
      _ = 10 ^ more * 10 ^ scale * x.denominator := by ring
  have length (more : Nat) (positive : 0 < more + scale) :
      ((digitChars (x.numerator * Nat.pow 10 more / x.denominator)).length : ℤ) ≤ more + scale := by
    exact_mod_cast (Nat.length_toDigits_le_iff (by decide) positive).mpr (small more)
  obtain ⟨more, moreEq⟩ : ∃ more : Nat, more = 400 := ⟨_, rfl⟩
  have atMost := length more (by omega)
  unfold decimalScale
  rw [← moreEq]
  omega

theorem closest_toSignificant {x : Magnitude} (below : x.value < 10 ^ 14) (k : Nat) :
    |(x.toSignificant 15).value - x.value| ≤ |(k : ℚ) - x.value| := by
  have scale := decimalScale_le below
  obtain ⟨places, placesEq⟩ : ∃ places : Nat, x.decimalScale - (15 : Nat) = -places :=
    ⟨((15 : Nat) - x.decimalScale).toNat, by push_cast at scale ⊢; omega⟩
  have isHalfEven := x.isHalfEven_digitsAt (-places)
  have unit : (0 : ℚ) < 10 ^ (-places : ℤ) := by positivity
  have scaled (w : ℚ) : w * 10 ^ (-places : ℤ) - x.value =
      (w - x.value / 10 ^ (-places : ℤ)) * 10 ^ (-places : ℤ) := by
    rw [sub_mul, div_mul_cancel₀ _ unit.ne']
  have multiple : (k : ℚ) = (k * 10 ^ places : Nat) * 10 ^ (-places : ℤ) := by
    rw [zpow_neg, zpow_natCast]
    push_cast
    field_simp
  have decimal : (x.toSignificant 15).value =
      x.digitsAt .toEven (-places) * 10 ^ (-places : ℤ) := by
    unfold toSignificant Decimal.value
    rw [placesEq]
  rw [decimal, multiple, scaled, scaled, abs_mul, abs_mul]
  exact mul_le_mul_of_nonneg_right (isHalfEven.closest _) (abs_nonneg _)

end Magnitude

/-! ## Snapping and rounding to a whole number -/

theorem size_hundredTrillion : size 1e14 = 10 ^ 14 := by
  have bits : magnitudeBits 1e14 = (-6 + 1074 : ℤ).toNat * 2 ^ 52 + 6400000000000000 := by
    decide +kernel
  rw [size, bits, Magnitude.point_eq (by norm_num) (by norm_num) (.inl (by norm_num))]
  norm_num

section

variable {t : Float} (finite : t.isFinite = true)
include finite

theorem abs_lt_hundredTrillion_iff : t.abs < 1e14 ↔ size t < 10 ^ 14 := by
  have limit : (1e14 : Float).isFinite = true := by decide +kernel
  have positive : isNegative 1e14 = false := by decide +kernel
  rw [abs_eq_unsigned finite, lt_iff_rational (isFinite_unsigned finite) limit,
    rational_unsigned finite, rational, positive, size_hundredTrillion]
  exact Iff.rfl

theorem snap_of_le (large : 10 ^ 14 ≤ size t) : snap t = t :=
  if_neg ((abs_lt_hundredTrillion_iff finite).not.mpr (not_lt.mpr large))

theorem snap_of_lt (small : size t < 10 ^ 14) :
    snap t = rounding (isNegative t) ((Magnitude.ofFloat t).toSignificant 15).value := by
  rw [snap, if_pos ((abs_lt_hundredTrillion_iff finite).mpr small), Decimal.toFloat_eq_rounding]

theorem snap_spec : (snap t).isFinite = true ∧ isNegative (snap t) = isNegative t ∧
    (size t < 10 ^ 14 → size (snap t) ≤ 2 * 10 ^ 14) := by
  rcases lt_or_ge (size t) (10 ^ 14) with small | large
  · have nearZero := Magnitude.closest_toSignificant (x := Magnitude.ofFloat t) small 0
    have nonneg := Decimal.value_nonneg ((Magnitude.ofFloat t).toSignificant 15)
    change |_ - size t| ≤ |((0 : Nat) : ℚ) - size t| at nearZero
    rw [Nat.cast_zero, zero_sub, abs_neg, abs_of_nonneg (size_nonneg t)] at nearZero
    have atMost := le_abs_self (((Magnitude.ofFloat t).toSignificant 15).value - size t)
    have onGrid := (@Magnitude.onGrid_natCast (10 ^ 14) (by norm_num)).double
    rw [Nat.cast_pow, Nat.cast_ofNat] at onGrid
    rw [snap_of_lt finite small]
    generalize ((Magnitude.ofFloat t).toSignificant 15).value = v at nonneg nearZero atMost
    have finiteSnap : (rounding (isNegative t) v).isFinite = true :=
      isFinite_rounding_of_le nonneg (by linarith)
    refine ⟨finiteSnap, isNegative_rounding finiteSnap, fun _ => ?_⟩
    rw [size_rounding finiteSnap]
    exact Magnitude.rounded_le nonneg onGrid (by linarith)
  · rw [snap_of_le finite large]
    exact ⟨finite, rfl, fun small => absurd small (not_lt.mpr large)⟩

/-- A natural of the grid is a candidate for both roundings of snapping, and each of them at most
doubles the distance to it. -/
theorem abs_size_snap_sub_le {k : Nat} (onGrid : Magnitude.OnGrid k) :
    |size (snap t) - k| ≤ 4 * |size t - k| := by
  rcases lt_or_ge (size t) (10 ^ 14) with small | large
  · have finiteSnap := (snap_spec finite).1
    have digits := Magnitude.closest_toSignificant (x := Magnitude.ofFloat t) small k
    change |_ - size t| ≤ |(k : ℚ) - size t| at digits
    rw [snap_of_lt finite small] at finiteSnap ⊢
    rw [size_rounding finiteSnap]
    have nonneg := Decimal.value_nonneg ((Magnitude.ofFloat t).toSignificant 15)
    generalize ((Magnitude.ofFloat t).toSignificant 15).value = v at digits nonneg
    have close := Magnitude.closest_rounded nonneg onGrid
    have decimal : |v - k| ≤ 2 * |size t - k| := by
      calc |v - k| ≤ |v - size t| + |size t - k| := abs_sub_le _ _ _
        _ ≤ 2 * |size t - k| := by
            rw [abs_sub_comm (k : ℚ)] at digits
            linarith
    calc |Magnitude.rounded v - k| ≤ |Magnitude.rounded v - v| + |v - k| := abs_sub_le _ _ _
      _ ≤ 4 * |size t - k| := by
          rw [abs_sub_comm (k : ℚ)] at close
          linarith
  · rw [snap_of_le finite large]
    linarith [abs_nonneg (size t - k)]

end

theorem roundDiv_up_spec (n : Nat) {d : Nat} (positive : 0 < d) :
    2 * roundDiv .up n d * d ≤ 2 * n + d ∧ 2 * n < (2 * roundDiv .up n d + 1) * d := by
  have whole := Nat.div_add_mod n d
  have small := Nat.mod_lt n positive
  have rounds := roundDiv_cases .up n d
  generalize n / d = q at whole rounds
  generalize n % d = r at whole small rounds
  subst whole
  rcases rounds with ⟨less, rounds⟩ | ⟨half, rounds⟩ | ⟨more, rounds⟩ <;> rw [rounds]
  · constructor <;> nlinarith
  · rw [Tie.settle]
    constructor <;> nlinarith
  · constructor <;> nlinarith

/-- The whole number nearest to a number, a half going up. -/
theorem roundWhole_spec (t : Float) :
    ∃ m : Nat, roundWhole t = rounding (isNegative t) m ∧
      2 * (m : ℚ) - 1 ≤ 2 * size t ∧ 2 * size t < 2 * m + 1 := by
  obtain ⟨low, high⟩ := roundDiv_up_spec (Magnitude.ofFloat t).numerator
    (Magnitude.ofFloat t).denominator_pos
  have positive : (0 : ℚ) < (Magnitude.ofFloat t).denominator := by
    exact_mod_cast (Magnitude.ofFloat t).denominator_pos
  have numerator : ((Magnitude.ofFloat t).numerator : ℚ) =
      size t * (Magnitude.ofFloat t).denominator := by
    rw [← div_eq_iff positive.ne']
    exact (Magnitude.ofFloat t).numerator_div_denominator
  have rounded : roundWhole t = rounding (isNegative t)
      (roundDiv .up (Magnitude.ofFloat t).numerator (Magnitude.ofFloat t).denominator : Nat) := by
    change nearest _ _ 1 = _
    rw [nearest_eq_rounding _ one_pos, Nat.cast_one, div_one]
  refine ⟨_, rounded, ?_, ?_⟩
  · generalize roundDiv .up _ _ = m at low
    have cast : (2 * m * (Magnitude.ofFloat t).denominator : ℚ) ≤
        2 * (Magnitude.ofFloat t).numerator + (Magnitude.ofFloat t).denominator := by
      exact_mod_cast low
    rw [numerator] at cast
    refine le_of_mul_le_mul_right ?_ positive
    linarith
  · generalize roundDiv .up _ _ = m at high
    have cast : (2 * (Magnitude.ofFloat t).numerator : ℚ) <
        (2 * m + 1) * (Magnitude.ofFloat t).denominator := by
      exact_mod_cast high
    rw [numerator] at cast
    refine lt_of_mul_lt_mul_right ?_ positive.le
    linarith

theorem roundWhole_eq {t : Float} {k : Nat} (low : 2 * (k : ℚ) - 1 ≤ 2 * size t)
    (high : 2 * size t < 2 * k + 1) : roundWhole t = rounding (isNegative t) k := by
  obtain ⟨m, rounded, low', high'⟩ := roundWhole_spec t
  have below : m < k + 1 := by
    have cast : (m : ℚ) < k + 1 := by linarith
    exact_mod_cast cast
  have above : k < m + 1 := by
    have cast : (k : ℚ) < m + 1 := by linarith
    exact_mod_cast cast
  have same : m = k := by omega
  rw [rounded, same]

section

variable {t : Float} (finite : t.isFinite = true)
include finite

theorem roundWhole_snap_of_near {k : Nat} (onGrid : Magnitude.OnGrid k)
    (near : 8 * |size t - k| < 1 ∨ 10 ^ 14 ≤ size t ∧ 2 * (k : ℚ) - 1 ≤ 2 * size t ∧
      2 * size t < 2 * k + 1) : roundWhole (snap t) = rounding (isNegative t) k := by
  rcases near with near | ⟨large, low, high⟩
  · obtain ⟨_, sign, _⟩ := snap_spec finite
    have close := abs_size_snap_sub_le finite onGrid
    have half : 4 * |size t - k| < 1 / 2 := by linarith
    obtain ⟨above, below⟩ := abs_lt.mp (close.trans_lt half)
    rw [← sign]
    exact roundWhole_eq (by linarith) (by linarith)
  · rw [snap_of_le finite large]
    exact roundWhole_eq low high

/-- The whole number of a finite number is finite. Below `2 ^ 51` it stays there, and from `2 ^ 52`
on it is the number itself. -/
theorem exists_roundWhole_snap : ∃ k : Nat, Magnitude.OnGrid k ∧
    roundWhole (snap t) = rounding (isNegative t) k ∧
      (rounding (isNegative t) k).isFinite = true ∧
        (size t ≤ 2 ^ 51 → k ≤ 2 ^ 51) ∧ (2 ^ 52 ≤ size t → (k : ℚ) = size t) := by
  obtain ⟨_, sign, bounded⟩ := snap_spec finite
  rcases lt_or_ge (size t) (2 ^ 52) with small | large
  · obtain ⟨k, rounded, low, high⟩ := roundWhole_spec (snap t)
    rw [sign] at rounded
    have atMost (limit : Nat) (le : size (snap t) ≤ limit) : k ≤ limit := by
      have cast : (k : ℚ) < limit + 1 := by linarith
      exact Nat.lt_succ_iff.mp (by exact_mod_cast cast)
    have sizes : size (snap t) ≤ 2 ^ 52 ∧ (size t ≤ 2 ^ 51 → size (snap t) ≤ 2 ^ 51) := by
      rcases lt_or_ge (size t) (10 ^ 14) with less | more
      · have bound := bounded less
        constructor
        · linarith
        · intro _
          linarith
      · rw [snap_of_le finite more]
        exact ⟨small.le, id⟩
    have short : k ≤ 2 ^ 52 := atMost (2 ^ 52) (by push_cast; exact sizes.1)
    have cast : (k : ℚ) ≤ 2 ^ 52 := by exact_mod_cast short
    refine ⟨k, Magnitude.onGrid_natCast (by omega), rounded,
      isFinite_rounding_of_le (Nat.cast_nonneg k) (by linarith), fun low => ?_, fun large => ?_⟩
    · exact atMost (2 ^ 51) (by push_cast; exact sizes.2 low)
    · exact absurd small (not_lt.mpr large)
  · obtain ⟨k, whole⟩ := (onGrid_size t).exists_natCast large
    have onGrid : Magnitude.OnGrid k := whole ▸ onGrid_size t
    refine ⟨k, onGrid, roundWhole_snap_of_near finite onGrid (.inl (by rw [whole]; norm_num)), ?_,
      fun low => ?_, fun _ => whole⟩
    · rw [whole, rounding_size finite]
      exact finite
    · linarith

end

/-! ## Scaling -/

theorem clampPlaces_bounds (places : ℤ) : -15 ≤ clampPlaces places ∧ clampPlaces places ≤ 15 := by
  unfold clampPlaces placesLimit
  push_cast
  omega

def placesFactor (places : ℤ) : Float :=
  nearest false (Nat.pow 10 (clampPlaces places).natAbs) 1

theorem placesFactor_spec (places : ℤ) : (placesFactor places).isFinite = true ∧
    isNegative (placesFactor places) = false ∧
      size (placesFactor places) = 10 ^ (clampPlaces places).natAbs := by
  obtain ⟨low, high⟩ := clampPlaces_bounds places
  unfold placesFactor
  rw [nearest_eq_rounding _ one_pos, Nat.cast_one, div_one]
  have small : Nat.pow 10 (clampPlaces places).natAbs ≤ 2 ^ 53 := by
    calc 10 ^ (clampPlaces places).natAbs ≤ 10 ^ 15 := Nat.pow_le_pow_right (by decide) (by omega)
      _ ≤ 2 ^ 53 := by norm_num
  have cast : ((Nat.pow 10 (clampPlaces places).natAbs : Nat) : ℚ) ≤ 2 ^ 53 := by
    exact_mod_cast small
  have finite := @isFinite_rounding_of_le false _ (Nat.cast_nonneg _) cast
  refine ⟨finite, isNegative_rounding finite, ?_⟩
  rw [size_rounding finite, Magnitude.rounded_of_onGrid (Magnitude.onGrid_natCast small),
    cast_ten_pow, zpow_natCast]

def scaledUp (x : Float) (places : ℤ) : Float :=
  rounding (isNegative x) (size x * 10 ^ clampPlaces places)

section

variable {x : Float} (finite : x.isFinite = true) (places : ℤ)
include finite

theorem scaled_eq : (if 0 ≤ clampPlaces places then x * placesFactor places
    else x / placesFactor places) = scaledUp x places := by
  unfold scaledUp
  obtain ⟨finiteFactor, sign, factor⟩ := placesFactor_spec places
  have positive : (0 : ℚ) < 10 ^ (clampPlaces places).natAbs := by positivity
  by_cases whole : 0 ≤ clampPlaces places
  · rw [if_pos whole, mul_eq_rounding finite finiteFactor, sign, factor, Bool.bne_false,
      ← zpow_natCast, Int.natAbs_of_nonneg whole]
  · rw [if_neg whole, div_eq_rounding finite finiteFactor (by rw [factor]; exact positive.ne'),
      sign, factor, Bool.bne_false, div_eq_mul_inv, ← zpow_natCast, ← zpow_neg]
    congr 3
    omega

theorem scaledBack_eq : (if 0 ≤ clampPlaces places then x / placesFactor places
    else x * placesFactor places) =
      rounding (isNegative x) (size x / 10 ^ clampPlaces places) := by
  obtain ⟨finiteFactor, sign, factor⟩ := placesFactor_spec places
  have positive : (0 : ℚ) < 10 ^ (clampPlaces places).natAbs := by positivity
  by_cases whole : 0 ≤ clampPlaces places
  · rw [if_pos whole, div_eq_rounding finite finiteFactor (by rw [factor]; exact positive.ne'),
      sign, factor, Bool.bne_false, ← zpow_natCast, Int.natAbs_of_nonneg whole]
  · rw [if_neg whole, mul_eq_rounding finite finiteFactor, sign, factor, Bool.bne_false,
      div_eq_mul_inv, ← zpow_natCast, ← zpow_neg]
    congr 3
    omega

end

theorem roundPlaces_eq (x : Float) (places : ℤ) :
    roundPlaces x places =
      if !x.isFinite || !(if 0 ≤ clampPlaces places then x * placesFactor places
          else x / placesFactor places).isFinite then x
      else if 0 ≤ clampPlaces places then
        roundWhole (snap (if 0 ≤ clampPlaces places then x * placesFactor places
          else x / placesFactor places)) / placesFactor places
      else roundWhole (snap (if 0 ≤ clampPlaces places then x * placesFactor places
          else x / placesFactor places)) * placesFactor places := rfl

theorem roundPlaces_of_not_isFinite {x : Float} (infinite : ¬ x.isFinite = true) (places : ℤ) :
    roundPlaces x places = x := by
  rw [roundPlaces_eq, if_pos (by simp [infinite])]

theorem roundPlaces_of_overflow {x : Float} (finite : x.isFinite = true) {places : ℤ}
    (overflow : ¬ (scaledUp x places).isFinite = true) : roundPlaces x places = x := by
  rw [roundPlaces_eq, scaled_eq finite, if_pos (by simp [overflow])]

/-- Rounding goes by way of this whole number. -/
structure IsPass (x : Float) (places : ℤ) (k : Nat) : Prop where
  finite : x.isFinite = true
  scaled : (scaledUp x places).isFinite = true
  onGrid : Magnitude.OnGrid k
  whole : roundWhole (snap (scaledUp x places)) = rounding (isNegative x) k
  finiteWhole : (rounding (isNegative x) k).isFinite = true

/-- There is such a whole number. Below `2 ^ 51` it stays there, and from `2 ^ 52` on it is the
scaled number itself. -/
theorem exists_isPass {x : Float} (finite : x.isFinite = true) {places : ℤ}
    (scaled : (scaledUp x places).isFinite = true) :
    ∃ k, IsPass x places k ∧ (size (scaledUp x places) ≤ 2 ^ 51 → k ≤ 2 ^ 51) ∧
      (2 ^ 52 ≤ size (scaledUp x places) → (k : ℚ) = size (scaledUp x places)) := by
  obtain ⟨k, onGrid, whole, finiteWhole, short, long⟩ := exists_roundWhole_snap scaled
  rw [show isNegative (scaledUp x places) = isNegative x from isNegative_rounding scaled]
    at whole finiteWhole
  exact ⟨k, ⟨finite, scaled, onGrid, whole, finiteWhole⟩, short, long⟩

theorem IsPass.roundPlaces_eq {x : Float} {places : ℤ} {k : Nat} (pass : IsPass x places k) :
    roundPlaces x places = rounding (isNegative x) (k / 10 ^ clampPlaces places) := by
  rw [Worksheet.roundPlaces_eq, scaled_eq pass.finite, if_neg (by simp [pass.finite, pass.scaled]),
    pass.whole, scaledBack_eq pass.finiteWhole, isNegative_rounding pass.finiteWhole,
    size_rounding pass.finiteWhole, Magnitude.rounded_of_onGrid pass.onGrid]

/-! ## Rounding twice -/

theorem onGrid_two_pow {n : Nat} (small : n ≤ 52) : Magnitude.OnGrid (2 ^ n) := by
  have onGrid := @Magnitude.onGrid_natCast (2 ^ n) (Nat.pow_le_pow_right two_pos (by omega))
  rwa [Nat.cast_pow, Nat.cast_ofNat] at onGrid

section

variable (places : ℤ)

theorem power_bounds : (10 : ℚ) ^ clampPlaces places ≤ 2 ^ (50 : ℤ) ∧
    (2 : ℚ) ^ (-50 : ℤ) ≤ 10 ^ clampPlaces places := by
  obtain ⟨low, high⟩ := clampPlaces_bounds places
  constructor
  · calc (10 : ℚ) ^ clampPlaces places ≤ 10 ^ (15 : ℤ) := zpow_le_zpow_right₀ (by norm_num) high
      _ ≤ 2 ^ (50 : ℤ) := by norm_num
  · calc (2 : ℚ) ^ (-50 : ℤ) ≤ 10 ^ (-15 : ℤ) := by norm_num
      _ ≤ 10 ^ clampPlaces places := zpow_le_zpow_right₀ (by norm_num) low

theorem abs_returned_sub_lt {k : Nat} (positive : 0 < k) :
    2 ^ 53 * |Magnitude.rounded (k / 10 ^ clampPlaces places) * 10 ^ clampPlaces places - k| <
      k := by
  have factor : (0 : ℚ) < 10 ^ clampPlaces places := by positivity
  have one : (1 : ℚ) ≤ k := by exact_mod_cast positive
  have normal : (2 : ℚ) ^ (-1022 : ℤ) ≤ k / 10 ^ clampPlaces places := by
    have atMost := (power_bounds places).1
    calc (2 : ℚ) ^ (-1022 : ℤ) ≤ 2 ^ (-50 : ℤ) := zpow_le_zpow_right₀ one_le_two (by norm_num)
      _ = 1 / 2 ^ (50 : ℤ) := by rw [zpow_neg, one_div]
      _ ≤ k / 10 ^ clampPlaces places := div_le_div₀ (Nat.cast_nonneg k) one factor atMost
  have error := Magnitude.abs_rounded_sub_lt normal
  generalize (10 : ℚ) ^ clampPlaces places = c at factor error
  have scaled : Magnitude.rounded (k / c) * c - k = (Magnitude.rounded (k / c) - k / c) * c := by
    rw [sub_mul, div_mul_cancel₀ _ factor.ne']
  rw [scaled, abs_mul, abs_of_pos factor, ← mul_assoc]
  calc 2 ^ 53 * |Magnitude.rounded (k / c) - k / c| * c < k / c * c :=
        mul_lt_mul_of_pos_right error factor
    _ = k := div_mul_cancel₀ _ factor.ne'

theorem abs_rescaled_sub_le {k : Nat} (onGrid : Magnitude.OnGrid k) :
    |Magnitude.rounded (Magnitude.rounded (k / 10 ^ clampPlaces places) *
        10 ^ clampPlaces places) - k| ≤
      2 * |Magnitude.rounded (k / 10 ^ clampPlaces places) * 10 ^ clampPlaces places - k| := by
  have nonneg : 0 ≤ Magnitude.rounded (k / 10 ^ clampPlaces places) * 10 ^ clampPlaces places :=
    mul_nonneg (Magnitude.rounded_nonneg _) (by positivity)
  generalize Magnitude.rounded (k / 10 ^ clampPlaces places) * 10 ^ clampPlaces places = v at nonneg
  have close := Magnitude.closest_rounded nonneg onGrid
  calc |Magnitude.rounded v - k| ≤ |Magnitude.rounded v - v| + |v - k| := abs_sub_le _ _ _
    _ ≤ 2 * |v - k| := by
        rw [abs_sub_comm (k : ℚ)] at close
        linarith

end

/-- The whole number of the first pass is the one of the second pass, if it is at most `2 ^ 51` or
the places are zero. -/
theorem roundWhole_snap_of_returned {t : Float} (finite : t.isFinite = true) {places : ℤ} {k : Nat}
    (onGrid : Magnitude.OnGrid k) (short : clampPlaces places = 0 ∨ k ≤ 2 ^ 51)
    (returned : size t = Magnitude.rounded
      (Magnitude.rounded (k / 10 ^ clampPlaces places) * 10 ^ clampPlaces places)) :
    roundWhole (snap t) = rounding (isNegative t) k := by
  have distance := abs_rescaled_sub_le places onGrid
  rw [← returned] at distance
  refine roundWhole_snap_of_near finite onGrid ?_
  by_cases exact : Magnitude.rounded (k / 10 ^ clampPlaces places) * 10 ^ clampPlaces places = k
  · rw [exact, sub_self, abs_zero, mul_zero] at distance
    left
    linarith
  · have positive : 0 < k := by
      rcases Nat.eq_zero_or_pos k with rfl | positive
      · exact absurd (by simp) exact
      · exact positive
    have bound : k ≤ 2 ^ 51 := by
      refine short.resolve_left fun zero => exact ?_
      rw [zero, zpow_zero, div_one, mul_one, Magnitude.rounded_of_onGrid onGrid]
    have error := abs_returned_sub_lt places positive
    have cast : (k : ℚ) ≤ 2 ^ 51 := by exact_mod_cast bound
    obtain ⟨low, high⟩ := abs_le.mp (le_refl |size t - k|)
    rcases lt_or_ge (size t) (10 ^ 14) with small | large
    · left
      linarith
    · right
      exact ⟨large, by linarith, by linarith⟩

/-- Below `2 ^ 52` there are halves, and a point there that is so near to a natural from there on is
the last of them. -/
theorem half_below_of_near {w : ℚ} {k : Nat} (onGrid : Magnitude.OnGrid w) (small : w < 2 ^ 52)
    (large : 2 ^ 52 ≤ (k : ℚ)) (near : 2 ^ 52 * |w - k| < k) :
    10 ^ 14 ≤ w ∧ 2 * (k : ℚ) - 1 ≤ 2 * w ∧ 2 * w < 2 * k + 1 := by
  rw [abs_of_neg (by linarith : w - k < 0)] at near
  obtain ⟨n, double⟩ := onGrid.double.exists_natCast (by linarith)
  have atLeast : 2 * k ≤ n + 1 := by
    have large : 2 ^ 52 ≤ k := by exact_mod_cast large
    have small : n < 2 ^ 53 := by
      have cast : (n : ℚ) < 2 ^ 53 := by linarith
      exact_mod_cast cast
    have near : 2 ^ 52 * (2 * k) < 2 ^ 52 * n + 2 * k := by
      have cast : (2 : ℚ) ^ 52 * (2 * k) < 2 ^ 52 * n + 2 * k := by linarith
      exact_mod_cast cast
    omega
  have cast : 2 * (k : ℚ) ≤ n + 1 := by exact_mod_cast atLeast
  exact ⟨by linarith, by linarith, by linarith⟩

namespace IsPass

variable {x : Float} {places : ℤ} {k : Nat} (pass : IsPass x places k)
  (once : (roundPlaces x places).isFinite = true)
include pass once

theorem isNegative_eq : isNegative (roundPlaces x places) = isNegative x := by
  rw [pass.roundPlaces_eq] at once ⊢
  exact isNegative_rounding once

theorem size_eq : size (roundPlaces x places) =
    Magnitude.rounded (k / 10 ^ clampPlaces places) := by
  rw [pass.roundPlaces_eq] at once ⊢
  exact size_rounding once

variable (again : (scaledUp (roundPlaces x places) places).isFinite = true)
include again

theorem size_scaledUp : size (scaledUp (roundPlaces x places) places) = Magnitude.rounded
    (Magnitude.rounded (k / 10 ^ clampPlaces places) * 10 ^ clampPlaces places) := by
  rw [scaledUp] at again ⊢
  rw [size_rounding again, pass.size_eq once]

theorem idempotent_of_same
    (same : roundWhole (snap (scaledUp (roundPlaces x places) places)) =
      rounding (isNegative (scaledUp (roundPlaces x places) places)) k) :
    roundPlaces (roundPlaces x places) places = roundPlaces x places := by
  have sign := pass.isNegative_eq once
  have signAgain : isNegative (scaledUp (roundPlaces x places) places) =
      isNegative (roundPlaces x places) := isNegative_rounding again
  have second : IsPass (roundPlaces x places) places k :=
    ⟨once, again, pass.onGrid, signAgain ▸ same, sign ▸ pass.finiteWhole⟩
  rw [second.roundPlaces_eq, sign, ← pass.roundPlaces_eq]

theorem idempotent_of_short (short : clampPlaces places = 0 ∨ k ≤ 2 ^ 51) :
    roundPlaces (roundPlaces x places) places = roundPlaces x places :=
  pass.idempotent_of_same once again
    (roundWhole_snap_of_returned again pass.onGrid short (pass.size_scaledUp once again))

theorem idempotent_of_half (large : 2 ^ 52 ≤ (k : ℚ))
    (small : size (scaledUp (roundPlaces x places) places) < 2 ^ 52) :
    roundPlaces (roundPlaces x places) places = roundPlaces x places := by
  refine pass.idempotent_of_same once again
    (roundWhole_snap_of_near again pass.onGrid (.inr ?_))
  have positive : 0 < k := by
    have cast : (0 : ℚ) < k := by linarith
    exact_mod_cast cast
  have error := abs_returned_sub_lt places positive
  have distance := abs_rescaled_sub_le places pass.onGrid
  rw [← pass.size_scaledUp once again] at distance
  exact half_below_of_near (onGrid_size _) small large (by linarith)

/-- Both passes leave the scaled number as it is. Scaling it back gives the number itself, which is
far from any power of two at which it could be rounded to another one. -/
theorem idempotent_of_long (nonzero : clampPlaces places ≠ 0)
    (long : 2 ^ 52 ≤ size x * 10 ^ clampPlaces places)
    (same : (k : ℚ) = size (scaledUp x places))
    (large : 2 ^ 52 ≤ size (scaledUp (roundPlaces x places) places)) :
    roundPlaces (roundPlaces x places) places = roundPlaces x places := by
  obtain ⟨k', second, _, long'⟩ := exists_isPass once again
  have same' := long' large
  rw [pass.size_scaledUp once again, same, scaledUp, size_rounding pass.scaled] at same'
  rw [second.roundPlaces_eq, pass.isNegative_eq once, pass.roundPlaces_eq]
  refine rounding_congr ?_
  rw [same', same, scaledUp, size_rounding pass.scaled]
  have factor : (0 : ℚ) < 10 ^ clampPlaces places := by positivity
  have longRounded := Magnitude.le_rounded (onGrid_two_pow le_rfl) long
  refine Magnitude.rounded_scaled_back (onGrid_size x) factor ?_ ?_ fun j above => ?_
  · have small : (2 : ℚ) ^ (-1022 : ℤ) ≤ 1 := zpow_le_one_of_nonpos₀ one_le_two (by norm_num)
    linarith
  · have atMost := (power_bounds places).1
    rw [one_le_div factor]
    norm_num at atMost
    linarith
  · obtain ⟨lowest, highest⟩ := clampPlaces_bounds places
    exact Magnitude.not_near_ten_zpow nonzero lowest highest j above

end IsPass

/-- Rounding to places a second time changes nothing, unless the scaled number lies from `2 ^ 51` up
to `2 ^ 52`, where the numbers are a half apart. -/
theorem roundPlaces_idempotent {x : Float} (finite : x.isFinite = true) {places : ℤ}
    (clear : clampPlaces places = 0 ∨ size x * 10 ^ clampPlaces places < 2 ^ 51 ∨
      2 ^ 52 ≤ size x * 10 ^ clampPlaces places) :
    roundPlaces (roundPlaces x places) places = roundPlaces x places := by
  have nonneg : 0 ≤ size x * 10 ^ clampPlaces places :=
    mul_nonneg (size_nonneg x) (by positivity)
  by_cases scaled : (scaledUp x places).isFinite = true
  swap
  · rw [roundPlaces_of_overflow finite scaled, roundPlaces_of_overflow finite scaled]
  by_cases once : (roundPlaces x places).isFinite = true
  swap
  · exact roundPlaces_of_not_isFinite once places
  by_cases again : (scaledUp (roundPlaces x places) places).isFinite = true
  swap
  · exact roundPlaces_of_overflow once again
  -- What overflows on the way is returned as it is; from here on both passes run to their end.
  obtain ⟨k, pass, short, long⟩ := exists_isPass finite scaled
  have rounded : size (scaledUp x places) =
      Magnitude.rounded (size x * 10 ^ clampPlaces places) := size_rounding scaled
  by_cases zero : clampPlaces places = 0
  · exact pass.idempotent_of_short once again (.inl zero)
  rcases clear.resolve_left zero with small | large
  · have atMost := Magnitude.rounded_le nonneg (onGrid_two_pow (by norm_num)) small.le
    exact pass.idempotent_of_short once again (.inr (short (rounded ▸ atMost)))
  · have atLeast : 2 ^ 52 ≤ size (scaledUp x places) :=
      rounded ▸ Magnitude.le_rounded (onGrid_two_pow le_rfl) large
    have same := long atLeast
    rcases le_or_gt (2 ^ 52) (size (scaledUp (roundPlaces x places) places)) with above | below
    · exact pass.idempotent_of_long once again zero large same above
    · exact pass.idempotent_of_half once again (same ▸ atLeast) below

/-- A tie in decimals that binary digits would miss. -/
theorem roundPlaces_idempotent_of_cents :
    size 2.675 * 10 ^ clampPlaces 2 < 2 ^ 51 ∧ roundPlaces 2.675 2 = 2.68 ∧
      roundPlaces (roundPlaces 2.675 2) 2 = roundPlaces 2.675 2 := by
  have places : clampPlaces 2 = 2 := by decide
  have bits : magnitudeBits 2.675 = (-51 + 1074 : ℤ).toNat * 2 ^ 52 + 6023564501608038 := by
    decide +kernel
  have below : size 2.675 * 10 ^ clampPlaces 2 < 2 ^ 51 := by
    rw [places, size, bits, Magnitude.point_eq (by norm_num) (by norm_num) (.inl (by norm_num))]
    norm_num
  exact ⟨below, by decide +kernel, roundPlaces_idempotent (by decide +kernel) (.inr (.inl below))⟩

/-- In between the second rounding goes on: half a unit above the whole number of the first pass is
the number nearest to it, and a half goes away from zero. -/
theorem roundPlaces_moves_on :
    (35215857993071.945 : Float).isFinite = true ∧
      roundPlaces 35215857993071.945 2 = 35215857993071.95 ∧
        roundPlaces 35215857993071.95 2 = 35215857993071.96 ∧
          (35215857993071.95 == (35215857993071.96 : Float)) = false := by
  decide +kernel

end Worksheet
