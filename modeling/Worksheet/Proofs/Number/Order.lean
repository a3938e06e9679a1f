import Mathlib
import Worksheet.Proofs.Number.Operations

/-!
# The order of numbers

Finite numbers are compared as their rationals are. Rounding keeps the order of rationals of either
sign, so a sum of finite numbers lies on the side of a number of the grid on which the exact sum
lies.
-/

set_option autoImplicit false

namespace Worksheet

open Float.Model Float.Model.UnpackedFloat

theorem compare_neg_neg (a b : ℚ) : compare (-a) (-b) = (compare a b).swap := by
  rcases lt_trichotomy a b with less | rfl | more
  · rw [compare_lt_iff_lt.mpr less, compare_gt_iff_gt.mpr (neg_lt_neg less), Ordering.swap]
  · rw [compare_eq_iff_eq.mpr rfl, compare_eq_iff_eq.mpr rfl, Ordering.swap]
  · rw [compare_gt_iff_gt.mpr more, compare_lt_iff_lt.mpr (neg_lt_neg more), Ordering.swap]

theorem compare_size (x y : Float) : compare (size x) (size y) =
    (compare (Magnitude.ofFloat x).exponent (Magnitude.ofFloat y).exponent).then
      (compare (Magnitude.ofFloat x).mantissa (Magnitude.ofFloat y).mantissa) := by
  have canonical (z : Float) : (Magnitude.ofFloat z).Canonical (magnitudeBits z) :=
    Magnitude.canonical_ofBits _
  rw [(canonical x).compare_eq (canonical y), size, size, ← cmp_eq_compare, ← cmp_eq_compare,
    Magnitude.point_strictMono.cmp_map_eq]

section

variable {x y : Float} (finite : x.isFinite = true) (finite' : y.isFinite = true)
include finite finite'

/-- Finite numbers are compared as their rationals are. -/
theorem compare_unpack : x.toModel.unpack.compare y.toModel.unpack =
    some (compare (rational x) (rational y)) := by
  have positive_of {z : Float} (positive : 0 < (Magnitude.ofFloat z).mantissa) :
      -size z < 0 ∧ 0 < size z :=
    ⟨neg_lt_zero.mpr ((size_pos_iff z).mpr positive), (size_pos_iff z).mpr positive⟩
  have zero_of {z : Float} (zero : (Magnitude.ofFloat z).mantissa = 0) : rational z = 0 :=
    (rational_eq_zero_iff z).mpr ((size_eq_zero_iff z).mpr zero)
  rcases unpack_of_isFinite finite with ⟨zero, unpacked⟩ | ⟨positive, unpacked⟩ <;>
    rcases unpack_of_isFinite finite' with ⟨zero', unpacked'⟩ | ⟨positive', unpacked'⟩ <;>
      rw [unpacked, unpacked', unpackedSign, unpackedSign]
  · rw [zero_of zero, zero_of zero', compare_eq_iff_eq.mpr rfl]
    rfl
  · obtain ⟨below, above⟩ := positive_of positive'
    rw [zero_of zero, rational]
    cases isNegative y with
    | true => exact congrArg some (compare_gt_iff_gt.mpr below).symm
    | false => exact congrArg some (compare_lt_iff_lt.mpr above).symm
  · obtain ⟨below, above⟩ := positive_of positive
    rw [zero_of zero', rational]
    cases isNegative x with
    | true => exact congrArg some (compare_lt_iff_lt.mpr below).symm
    | false => exact congrArg some (compare_gt_iff_gt.mpr above).symm
  · obtain ⟨below, above⟩ := positive_of positive
    obtain ⟨below', above'⟩ := positive_of positive'
    rw [rational, rational]
    cases isNegative x with
    | true =>
        cases isNegative y with
        | true =>
            refine congrArg some ?_
            simp only [if_true, compare_neg_neg, compare_size]
        | false => exact congrArg some (compare_lt_iff_lt.mpr (below.trans above')).symm
    | false =>
        cases isNegative y with
        | true => exact congrArg some (compare_gt_iff_gt.mpr (below'.trans above)).symm
        | false =>
            refine congrArg some ?_
            simp only [Bool.false_eq_true, if_false, compare_size]

theorem lt_iff_rational : x < y ↔ rational x < rational y := by
  change decide (x.toModel < y.toModel) = true ↔ _
  rw [decide_eq_true_iff]
  change (x.toModel.unpack.compare y.toModel.unpack == some .lt) = true ↔ _
  rw [compare_unpack finite finite', beq_iff_eq, Option.some_inj, compare_lt_iff_lt]

theorem le_iff_rational : x ≤ y ↔ rational x ≤ rational y := by
  change decide (x.toModel ≤ y.toModel) = true ↔ _
  rw [decide_eq_true_iff]
  change (x.toModel.unpack.compare y.toModel.unpack).any (·.isLE) = true ↔ _
  rw [compare_unpack finite finite', Option.any_some]
  exact Ordering.isLE_iff_ne_gt.trans compare_le_iff_le

theorem beq_iff_rational : (x == y) = true ↔ rational x = rational y := by
  change (x.toModel.unpack.compare y.toModel.unpack == some .eq) = true ↔ _
  rw [compare_unpack finite finite', beq_iff_eq, Option.some_inj, compare_eq_iff_eq]

end

theorem abs_eq_unsigned {x : Float} (finite : x.isFinite = true) : x.abs = unsigned x := by
  refine Eq.trans ?_ (ofModel_pack_unpack (unsigned x))
  change Float.ofModel (Float.Model.pack x.toModel.unpack.abs) = _
  have sign : unpackedSign (unsigned x) = .positive := by
    rw [unpackedSign, isNegative_unsigned finite]
    rfl
  have other := unpack_of_isFinite (isFinite_unsigned finite)
  rw [ofFloat_unsigned finite, sign] at other
  rcases unpack_of_isFinite finite with ⟨zero, unpacked⟩ | ⟨positive, unpacked⟩
  · rcases other with ⟨_, unpacked'⟩ | ⟨positive', _⟩
    · rw [unpacked, unpacked']
      rfl
    · omega
  · rcases other with ⟨zero', _⟩ | ⟨_, unpacked'⟩
    · omega
    · rw [unpacked, unpacked']
      rfl

theorem rational_unsigned {x : Float} (finite : x.isFinite = true) :
    rational (unsigned x) = size x := by
  rw [rational, isNegative_unsigned finite, size, size, magnitudeBits_unsigned finite]
  rfl

def roundedSigned (q : ℚ) : ℚ :=
  if q < 0 then -Magnitude.rounded (-q) else Magnitude.rounded q

theorem roundedSigned_of_neg {q : ℚ} (negative : q < 0) :
    roundedSigned q = -Magnitude.rounded (-q) := if_pos negative

theorem roundedSigned_of_nonneg {q : ℚ} (nonneg : 0 ≤ q) :
    roundedSigned q = Magnitude.rounded q := if_neg (not_lt.mpr nonneg)

theorem roundedSigned_mono : Monotone roundedSigned := by
  intro p q le
  rcases lt_or_ge p 0 with below | above
  · rw [roundedSigned_of_neg below]
    rcases lt_or_ge q 0 with below' | above'
    · rw [roundedSigned_of_neg below', neg_le_neg_iff]
      exact Magnitude.rounded_le_rounded (by linarith) (neg_le_neg le)
    · rw [roundedSigned_of_nonneg above']
      have first := Magnitude.rounded_nonneg (-p)
      have second := Magnitude.rounded_nonneg q
      linarith
  · rw [roundedSigned_of_nonneg above, roundedSigned_of_nonneg (above.trans le)]
    exact Magnitude.rounded_le_rounded above le

theorem roundedSigned_of_onGrid {q : ℚ} (onGrid : Magnitude.OnGrid |q|) : roundedSigned q = q := by
  rcases lt_or_ge q 0 with below | above
  · rw [abs_of_neg below] at onGrid
    rw [roundedSigned_of_neg below, Magnitude.rounded_of_onGrid onGrid, neg_neg]
  · rw [abs_of_nonneg above] at onGrid
    rw [roundedSigned_of_nonneg above, Magnitude.rounded_of_onGrid onGrid]

theorem rational_rounding {negative : Bool} {v : ℚ}
    (finite : (rounding negative v).isFinite = true) :
    rational (rounding negative v) =
      if negative then -Magnitude.rounded v else Magnitude.rounded v := by
  rw [rational, isNegative_rounding finite, size_rounding finite]

theorem rational_roundingSigned {q : ℚ} (finite : (roundingSigned q).isFinite = true) :
    rational (roundingSigned q) = roundedSigned q := by
  unfold roundingSigned at finite ⊢
  rw [rational_rounding finite, roundedSigned]
  by_cases negative : q < 0
  · rw [decide_eq_true negative, if_pos rfl, if_pos negative, abs_of_neg negative]
  · rw [decide_eq_false negative, if_neg Bool.false_ne_true, if_neg negative,
      abs_of_nonneg (not_lt.mp negative)]

theorem onGrid_abs_rational (x : Float) : Magnitude.OnGrid |rational x| :=
  abs_rational x ▸ onGrid_size x

theorem rational_add {x y : Float} (finite : x.isFinite = true) (finite' : y.isFinite = true)
    (finiteSum : (x + y).isFinite = true) :
    rational (x + y) = roundedSigned (rational x + rational y) := by
  by_cases zero : rational x + rational y = 0
  · obtain ⟨negative, cancelled⟩ := add_eq_zero finite finite' zero
    rw [cancelled] at finiteSum ⊢
    rw [zero, rational_rounding finiteSum, roundedSigned_of_nonneg le_rfl, Magnitude.rounded_zero,
      neg_zero, ite_self]
  · have sum := add_eq_rounding finite finite' zero
    rw [sum] at finiteSum ⊢
    exact rational_roundingSigned finiteSum

theorem isFinite_add_iff {x y : Float} (finite : x.isFinite = true) (finite' : y.isFinite = true) :
    (x + y).isFinite = true ↔ |rational x + rational y| < 2 ^ (1024 : ℤ) - 2 ^ (970 : ℤ) := by
  by_cases zero : rational x + rational y = 0
  · obtain ⟨negative, cancelled⟩ := add_eq_zero finite finite' zero
    rw [cancelled, isFinite_rounding_iff_lt_limit le_rfl, zero, abs_zero]
  · rw [add_eq_rounding finite finite' zero, roundingSigned,
      isFinite_rounding_iff_lt_limit (abs_nonneg _)]

theorem rational_half {x : Float} (finite : x.isFinite = true) :
    (x / 2.0).isFinite = true ∧ rational (x / 2.0) = roundedSigned (rational x / 2) := by
  have two : (2.0 : Float).isFinite = true ∧ isNegative 2.0 = false ∧
      magnitudeBits 2.0 = (-51 + 1074 : ℤ).toNat * 2 ^ 52 + 2 ^ 52 := by decide +kernel
  have sizeTwo : size 2.0 = 2 := by
    rw [size, two.2.2, Magnitude.point_eq (by norm_num) (by norm_num) (.inl le_rfl)]
    norm_num
  have nonneg : 0 ≤ size x / 2 := div_nonneg (size_nonneg x) two_pos.le
  have half := div_eq_rounding finite two.1 (by rw [sizeTwo]; exact two_ne_zero)
  rw [two.2.1, Bool.bne_false, sizeTwo] at half
  have finiteHalf : (rounding (isNegative x) (size x / 2)).isFinite = true := by
    rw [isFinite_rounding_iff_lt]
    calc Magnitude.rounded (size x / 2) ≤ size x :=
          Magnitude.rounded_le nonneg (onGrid_size x) (by linarith [size_nonneg x])
      _ < 2 ^ (1024 : ℤ) := by
          rw [← point_infinity]
          exact Magnitude.point_strictMono (magnitudeBits_lt finite)
  rw [half]
  refine ⟨finiteHalf, ?_⟩
  rw [rational_rounding finiteHalf, rational]
  cases isNegative x with
  | false => exact (roundedSigned_of_nonneg nonneg).symm
  | true =>
      rw [if_pos rfl, if_pos rfl, neg_div]
      rcases nonneg.eq_or_lt with zero | positive
      · rw [← zero, neg_zero, roundedSigned_of_nonneg le_rfl, Magnitude.rounded_zero, neg_zero]
      · rw [roundedSigned_of_neg (by linarith), neg_neg]

/-- The mean of two numbers that a finite sum gives lies between any bounds of the two. Doubling a
number of the grid stays on it, so neither rounding passes a bound. -/
theorem mean_between {a b low high : Float} (finite : a.isFinite = true)
    (finite' : b.isFinite = true) (finiteSum : (a + b).isFinite = true)
    (aboveFirst : rational low ≤ rational a) (aboveSecond : rational low ≤ rational b)
    (belowFirst : rational a ≤ rational high) (belowSecond : rational b ≤ rational high) :
    rational low ≤ rational ((a + b) / 2.0) ∧ rational ((a + b) / 2.0) ≤ rational high := by
  have doubled (x : Float) : roundedSigned (2 * rational x) = 2 * rational x := by
    apply roundedSigned_of_onGrid
    rw [abs_mul, abs_two]
    exact (onGrid_abs_rational x).double
  have sum := rational_add finite finite' finiteSum
  have sumLow := roundedSigned_mono (by linarith : 2 * rational low ≤ rational a + rational b)
  have sumHigh := roundedSigned_mono (by linarith : rational a + rational b ≤ 2 * rational high)
  rw [doubled, ← sum] at sumLow
  rw [doubled, ← sum] at sumHigh
  rw [(rational_half finiteSum).2]
  constructor
  · have half := roundedSigned_mono (by linarith : rational low ≤ rational (a + b) / 2)
    rwa [roundedSigned_of_onGrid (onGrid_abs_rational low)] at half
  · have half := roundedSigned_mono (by linarith : rational (a + b) / 2 ≤ rational high)
    rwa [roundedSigned_of_onGrid (onGrid_abs_rational high)] at half

end Worksheet
