import Mathlib
import Worksheet.Proofs.Number.Machine

/-!
# Exact results

Products, quotients and sums of finite numbers are the exact results, rounded once, and finite
numbers are in the order of their rationals.
-/

set_option autoImplicit false

namespace Worksheet

open Float.Model Float.Model.UnpackedFloat

theorem signOf_mul (a b : Bool) : signOf a * signOf b = signOf (a != b) := by
  cases a <;> cases b <;> rfl

theorem signOf_div (a b : Bool) : signOf a / signOf b = signOf (a != b) := by
  cases a <;> cases b <;> rfl

theorem ofModel_pack_zero (negative : Bool) :
    Float.ofModel (Float.Model.pack (.zero (signOf negative))) = rounding negative 0 := by
  rw [rounding, Magnitude.roundedBits_zero]
  cases negative <;> decide +kernel

theorem unpack_cases {x : Float} (finite : x.isFinite = true) :
    size x = 0 ∧ x.toModel.unpack = .zero (signOf (isNegative x)) ∨
      ∃ mantissa exponent, ∃ positive : 0 < mantissa,
        x.toModel.unpack = .finite (signOf (isNegative x)) mantissa exponent positive ∧
          size x = mantissa * 2 ^ exponent ∧ (2 ^ 52 ≤ mantissa ∨ exponent = -1074) := by
  rcases unpack_of_isFinite finite with ⟨zero, unpacked⟩ | ⟨positive, unpacked⟩
  · exact .inl ⟨(size_eq_zero_iff x).mpr zero, unpacked⟩
  · obtain ⟨_, _, normal, _⟩ := Magnitude.canonical_ofBits (magnitudeBits x)
    exact .inr ⟨_, _, positive, unpacked, size_eq x, normal⟩

theorem size_pos_of_mantissa {x : Float} {mantissa : Nat} {exponent : ℤ} (positive : 0 < mantissa)
    (same : size x = mantissa * 2 ^ exponent) : 0 < size x := by
  have cast : (0 : ℚ) < mantissa := by exact_mod_cast positive
  rw [same]
  positivity

section

variable {x y : Float} (finite : x.isFinite = true) (finite' : y.isFinite = true)
include finite finite'

theorem mul_eq_rounding : x * y = rounding (isNegative x != isNegative y) (size x * size y) := by
  change Float.ofModel (Float.Model.pack
    (UnpackedFloat.mul Format.binary64 x.toModel.unpack y.toModel.unpack)) = _
  rcases unpack_cases finite with ⟨zero, unpacked⟩ | ⟨m, e, positive, unpacked, value, normal⟩
  · rw [zero, zero_mul, unpacked, ← ofModel_pack_zero, ← signOf_mul]
    rcases unpack_cases finite' with ⟨_, unpacked'⟩ | ⟨m', e', positive', unpacked', _⟩ <;>
      rw [unpacked'] <;> rfl
  · rcases unpack_cases finite' with
      ⟨zero, unpacked'⟩ | ⟨m', e', positive', unpacked', value', normal'⟩
    · rw [zero, mul_zero, unpacked, unpacked', ← ofModel_pack_zero, ← signOf_mul]
      rfl
    · have product : size x * size y = (m * m' : Nat) * 2 ^ (e + e') := by
        rw [value, value', zpow_add₀ two_ne_zero]
        push_cast
        ring
      have located : Locates (.ofMantissaAndAccuracy (m * m') .exact)
          (size x * size y / 2 ^ (e + e')) := by
        rw [product, mul_div_cancel_right₀ _ (by positivity)]
        exact .exact _
      have long : 2 ^ 52 ≤ m * m' ∨ e + e' ≤ -1074 := by
        rcases normal with normal | rfl
        · exact .inl (normal.trans (Nat.le_mul_of_pos_right _ positive'))
        · rcases normal' with normal' | rfl
          · exact .inl (normal'.trans (Nat.le_mul_of_pos_left _ positive))
          · exact .inr (by norm_num)
      rw [unpacked, unpacked', ← ofModel_pack_roundWithAccuracy _ (mul_pos
        (size_pos_of_mantissa positive value) (size_pos_of_mantissa positive' value')) located long,
        ← signOf_mul]
      rfl

end

theorem locates_div (n : Nat) {d : Nat} (positive : 0 < d) :
    Locates (.ofMantissaAndAccuracy (n / d) (accuracyOfFraction (n % d) d)) ((n : ℚ) / d) := by
  have small := mod_div_lt_one positive n
  rw [div_eq_whole_add positive]
  generalize n / d = quotient
  generalize n % d = remainder at small
  unfold accuracyOfFraction
  by_cases exact : remainder = 0
  · rw [if_pos exact, exact, Nat.cast_zero, zero_div, add_zero]
    exact .exact _
  · have above : (0 : ℚ) < remainder / d := by
      have cast : (0 : ℚ) < remainder := by exact_mod_cast Nat.pos_of_ne_zero exact
      positivity
    rw [if_neg exact]
    rcases Nat.lt_trichotomy (2 * remainder) d with less | tie | more
    · have half := (div_lt_half_iff positive).mpr less
      rw [Nat.compare_eq_lt.mpr less]
      exact ⟨lt_add_of_pos_right _ above, (add_lt_add_iff_left _).mpr half⟩
    · rw [Nat.compare_eq_eq.mpr tie, (div_eq_half_iff positive).mpr tie]
      rfl
    · have half := (half_lt_div_iff positive).mpr more
      rw [Nat.compare_eq_gt.mpr more]
      exact ⟨(add_lt_add_iff_left _).mpr half, (add_lt_add_iff_left _).mpr small⟩

/-- The exponent of a quotient is chosen low enough for its whole part to be a long mantissa. -/
theorem divCore_spec {m m' : Nat} (e e' : ℤ) (positive : 0 < m) (positive' : 0 < m') :
    ∃ mantissa exponent accuracy,
      divCore Format.binary64 m e m' e' = (mantissa, exponent, accuracy) ∧
        Locates (.ofMantissaAndAccuracy mantissa accuracy)
          (m * (2 : ℚ) ^ e / (m' * 2 ^ e') / 2 ^ exponent) ∧
        (2 ^ 52 ≤ mantissa ∨ exponent ≤ -1074) := by
  -- the exponent of the quotient, low enough for fifty-three bits of it
  obtain ⟨target, targetEq⟩ : ∃ target : ℤ, target = min (e - e')
      (max (m.log2 + 1 + e - (m'.log2 + 1 + e') - 53) (-1074)) := ⟨_, rfl⟩
  obtain ⟨steps, stepsEq⟩ : ∃ steps : Nat, e - e' - target = steps :=
    ⟨(e - e' - target).toNat, by omega⟩
  refine ⟨m <<< steps / m', target, accuracyOfFraction (m <<< steps % m') m', ?_, ?_, ?_⟩
  · have count : (e - e' - target).toNat = steps := by omega
    have unfolded : divCore Format.binary64 m e m' e' =
        (m <<< (e - e' - min (e - e')
            (max (m.log2 + 1 + e - (m'.log2 + 1 + e') - 53) (-1074))).toNat / m',
          min (e - e') (max (m.log2 + 1 + e - (m'.log2 + 1 + e') - 53) (-1074)),
          accuracyOfFraction (m <<< (e - e' - min (e - e')
            (max (m.log2 + 1 + e - (m'.log2 + 1 + e') - 53) (-1074))).toNat % m') m') := rfl
    rw [unfolded, ← targetEq, count]
  · have quotient : (m : ℚ) * 2 ^ e / (m' * 2 ^ e') / 2 ^ target = (m <<< steps : Nat) / m' := by
      have exponents : (2 : ℚ) ^ e = 2 ^ steps * 2 ^ e' * 2 ^ target := by
        rw [← zpow_natCast, ← zpow_add₀ two_ne_zero, ← zpow_add₀ two_ne_zero]
        congr 1
        omega
      have divisor : (m' : ℚ) ≠ 0 := by exact_mod_cast positive'.ne'
      rw [exponents, Nat.shiftLeft_eq]
      push_cast
      field_simp
    rw [quotient]
    exact locates_div _ positive'
  · by_cases least : target ≤ -1074
    · exact .inr least
    · left
      have short : m' < 2 ^ (m'.log2 + 1) := Nat.lt_log2_self
      have long : 2 ^ m.log2 ≤ m := Nat.log2_self_le positive.ne'
      have bits : m'.log2 + 1 + 52 ≤ m.log2 + steps := by omega
      rw [Nat.le_div_iff_mul_le positive', Nat.shiftLeft_eq]
      calc 2 ^ 52 * m' ≤ 2 ^ 52 * 2 ^ (m'.log2 + 1) := Nat.mul_le_mul_left _ short.le
        _ = 2 ^ (m'.log2 + 1 + 52) := by rw [← Nat.pow_add, Nat.add_comm]
        _ ≤ 2 ^ (m.log2 + steps) := Nat.pow_le_pow_right two_pos bits
        _ = 2 ^ m.log2 * 2 ^ steps := Nat.pow_add _ _ _
        _ ≤ m * 2 ^ steps := Nat.mul_le_mul_right _ long

theorem div_eq_rounding {x y : Float} (finite : x.isFinite = true) (finite' : y.isFinite = true)
    (nonzero : size y ≠ 0) :
    x / y = rounding (isNegative x != isNegative y) (size x / size y) := by
  rw [div_eq_ofModel]
  obtain ⟨zero, _⟩ | ⟨m', e', positive', unpacked', value', _⟩ := unpack_cases finite'
  · exact absurd zero nonzero
  · rcases unpack_cases finite with ⟨zero, unpacked⟩ | ⟨m, e, positive, unpacked, value, _⟩
    · rw [zero, zero_div, unpacked, unpacked', ← ofModel_pack_zero, ← signOf_div]
      rfl
    · obtain ⟨mantissa, exponent, accuracy, core, located, long⟩ :=
        divCore_spec e e' positive positive'
      rw [← value, ← value'] at located
      rw [unpacked, unpacked', ← ofModel_pack_roundWithAccuracy _ (div_pos
        (size_pos_of_mantissa positive value) (size_pos_of_mantissa positive' value')) located long,
        ← signOf_div]
      change Float.ofModel (Float.Model.pack (match divCore Format.binary64 m e m' e' with
        | (mantissa, exponent, accuracy) => roundWithAccuracy _ _ mantissa exponent accuracy)) = _
      rw [core]

/-! ## Sums -/

def rational (x : Float) : ℚ :=
  if isNegative x then -size x else size x

theorem abs_rational (x : Float) : |rational x| = size x := by
  unfold rational
  split
  · rw [abs_neg, abs_of_nonneg (size_nonneg x)]
  · rw [abs_of_nonneg (size_nonneg x)]

theorem rational_eq_zero_iff (x : Float) : rational x = 0 ↔ size x = 0 := by
  rw [← abs_rational, abs_eq_zero]

/-- The number nearest to a rational other than zero. -/
def roundingSigned (q : ℚ) : Float :=
  rounding (decide (q < 0)) |q|

theorem roundingSigned_rational {x : Float} (finite : x.isFinite = true)
    (nonzero : rational x ≠ 0) : roundingSigned (rational x) = x := by
  have positive : 0 < size x :=
    lt_of_le_of_ne (size_nonneg x) fun zero => nonzero ((rational_eq_zero_iff x).mpr zero.symm)
  have sign : decide (rational x < 0) = isNegative x := by
    unfold rational
    cases isNegative x with
    | false => simpa using positive.le
    | true => simpa using positive
  rw [roundingSigned, sign, abs_rational, rounding_size finite]

/-- The machine rounds a whole number of units as the rational is rounded. -/
theorem ofModel_pack_round (negative : Bool) {mantissa : Nat} (exponent : ℤ)
    (positive : 0 < mantissa) :
    Float.ofModel (Float.Model.pack
      (UnpackedFloat.round Format.binary64 (signOf negative) mantissa exponent)) =
        rounding negative (mantissa * 2 ^ exponent) := by
  obtain ⟨target, targetEq⟩ : ∃ target : ℤ,
      target = max (mantissa.log2 + 1 + exponent - 53) (-1074) := ⟨_, rfl⟩
  obtain ⟨steps, stepsEq⟩ : ∃ steps : Nat, (exponent - target).toNat = steps := ⟨_, rfl⟩
  have unfolded : UnpackedFloat.round Format.binary64 (signOf negative) mantissa exponent =
      roundWithAccuracy Format.binary64 (signOf negative)
        (mantissa <<< (exponent - max (mantissa.log2 + 1 + exponent - 53) (-1074)).toNat)
        (exponent - (exponent - max (mantissa.log2 + 1 + exponent - 53) (-1074)).toNat)
        .exact := rfl
  have value : (mantissa : ℚ) * 2 ^ exponent / 2 ^ (exponent - steps) =
      (mantissa <<< steps : Nat) := by
    have exponents : (2 : ℚ) ^ exponent = 2 ^ steps * 2 ^ (exponent - steps) := by
      rw [← zpow_natCast, ← zpow_add₀ two_ne_zero]
      congr 1
      ring
    have unit : (0 : ℚ) < 2 ^ (exponent - steps) := by positivity
    rw [exponents, Nat.shiftLeft_eq, ← mul_assoc, mul_div_cancel_right₀ _ unit.ne']
    push_cast
    ring
  have product : (0 : ℚ) < mantissa * 2 ^ exponent := by
    have cast : (0 : ℚ) < mantissa := by exact_mod_cast positive
    positivity
  rw [unfolded, ← targetEq, stepsEq]
  refine ofModel_pack_roundWithAccuracy negative product (by rw [value]; exact .exact _) ?_
  by_cases least : exponent - steps ≤ -1074
  · exact .inr least
  · left
    have long : 2 ^ mantissa.log2 ≤ mantissa := Nat.log2_self_le positive.ne'
    rw [Nat.shiftLeft_eq]
    calc 2 ^ 52 ≤ 2 ^ (mantissa.log2 + steps) := Nat.pow_le_pow_right two_pos (by omega)
      _ = 2 ^ mantissa.log2 * 2 ^ steps := Nat.pow_add _ _ _
      _ ≤ mantissa * 2 ^ steps := Nat.mul_le_mul_right _ long

theorem ofModel_pack_normalize {mantissa : ℤ} (exponent : ℤ) (zeroSign : Sign)
    (nonzero : mantissa ≠ 0) :
    Float.ofModel (Float.Model.pack
      (UnpackedFloat.normalize Format.binary64 mantissa exponent zeroSign)) =
      roundingSigned (mantissa * 2 ^ exponent) := by
  have unit : (0 : ℚ) < 2 ^ exponent := by positivity
  unfold UnpackedFloat.normalize roundingSigned
  rcases lt_trichotomy mantissa 0 with below | zero | above
  · have negative : (mantissa : ℚ) * 2 ^ exponent < 0 :=
      mul_neg_of_neg_of_pos (by exact_mod_cast below) unit
    obtain ⟨n, rfl⟩ : ∃ n : Nat, mantissa = -n := ⟨(-mantissa).toNat, by omega⟩
    have packed := @ofModel_pack_round true n exponent (by omega)
    rw [compare_lt_iff_lt.mpr below, decide_eq_true negative, abs_of_neg negative]
    simp only [neg_neg, Int.toNat_natCast, Int.cast_neg, Int.cast_natCast, neg_mul]
    exact packed
  · exact absurd zero nonzero
  · have positive : (0 : ℚ) < mantissa * 2 ^ exponent := mul_pos (by exact_mod_cast above) unit
    obtain ⟨n, rfl⟩ : ∃ n : Nat, mantissa = n := ⟨mantissa.toNat, by omega⟩
    have packed := @ofModel_pack_round false n exponent (by omega)
    rw [compare_gt_iff_gt.mpr above, decide_eq_false (not_lt.mpr positive.le), abs_of_pos positive]
    simp only [Int.toNat_natCast, Int.cast_natCast]
    exact packed

theorem apply_signOf (negative : Bool) (n : Nat) :
    (((signOf negative).apply n : ℤ) : ℚ) = if negative then -(n : ℚ) else n := by
  cases negative <;> simp [signOf, Sign.apply]

theorem exists_add_eq_normalize {x y : Float} (finite : x.isFinite = true)
    (finite' : y.isFinite = true) (nonzero : rational x ≠ 0) (nonzero' : rational y ≠ 0) :
    ∃ (total : ℤ) (exponent : ℤ), rational x + rational y = total * 2 ^ exponent ∧
      x + y = Float.ofModel (Float.Model.pack
        (UnpackedFloat.normalize Format.binary64 total exponent .positive)) := by
  rcases unpack_cases finite with ⟨zero, _⟩ | ⟨m, e, positive, unpacked, value, _⟩
  · exact absurd ((rational_eq_zero_iff x).mpr zero) nonzero
  rcases unpack_cases finite' with ⟨zero, _⟩ | ⟨m', e', positive', unpacked', value', _⟩
  · exact absurd ((rational_eq_zero_iff y).mpr zero) nonzero'
  obtain ⟨lower, lowerEq⟩ : ∃ lower, lower = min e e' := ⟨_, rfl⟩
  obtain ⟨total, totalEq⟩ : ∃ total, total =
      (signOf (isNegative x)).apply (m <<< (e - lower).toNat : Nat) +
        (signOf (isNegative y)).apply (m' <<< (e' - lower).toNat : Nat) := ⟨_, rfl⟩
  refine ⟨total, lower, ?_, ?_⟩
  · have aligned {k : Nat} {f : ℤ} (above : lower ≤ f) :
        ((k <<< (f - lower).toNat : Nat) : ℚ) * 2 ^ lower = k * 2 ^ f := by
      rw [Nat.shiftLeft_eq, Nat.cast_mul, Nat.cast_pow, Nat.cast_ofNat, mul_assoc, ← zpow_natCast,
        ← zpow_add₀ two_ne_zero]
      congr 2
      omega
    rw [totalEq, Int.cast_add, apply_signOf, apply_signOf, add_mul, ite_mul, ite_mul, neg_mul,
      neg_mul, aligned (by omega), aligned (by omega), rational, rational, value, value']
  · change Float.ofModel (Float.Model.pack
      (UnpackedFloat.add Format.binary64 x.toModel.unpack y.toModel.unpack)) = _
    rw [unpacked, unpacked', totalEq, lowerEq]
    rfl

section

variable {x y : Float} (finite : x.isFinite = true) (finite' : y.isFinite = true)
include finite finite'

theorem add_eq_rounding (nonzero : rational x + rational y ≠ 0) :
    x + y = roundingSigned (rational x + rational y) := by
  by_cases zero : rational x = 0
  · rw [zero, zero_add] at nonzero ⊢
    rw [roundingSigned_rational finite' nonzero]
    refine Eq.trans ?_ (ofModel_pack_unpack y)
    change Float.ofModel (Float.Model.pack
      (UnpackedFloat.add Format.binary64 x.toModel.unpack y.toModel.unpack)) = _
    rcases unpack_cases finite with ⟨_, unpacked⟩ | ⟨m, e, positive, _, value, _⟩
    · rcases unpack_cases finite' with ⟨zero', _⟩ | ⟨m', e', positive', unpacked', _⟩
      · exact absurd ((rational_eq_zero_iff y).mpr zero') nonzero
      · rw [unpacked, unpacked']
        rfl
    · exact absurd ((rational_eq_zero_iff x).mp zero) (size_pos_of_mantissa positive value).ne'
  by_cases zero' : rational y = 0
  · rw [zero', add_zero, roundingSigned_rational finite zero]
    refine Eq.trans ?_ (ofModel_pack_unpack x)
    change Float.ofModel (Float.Model.pack
      (UnpackedFloat.add Format.binary64 x.toModel.unpack y.toModel.unpack)) = _
    rcases unpack_cases finite with ⟨none, _⟩ | ⟨m, e, positive, unpacked, _⟩
    · exact absurd ((rational_eq_zero_iff x).mpr none) zero
    · rcases unpack_cases finite' with ⟨_, unpacked'⟩ | ⟨m', e', positive', _, value', _⟩
      · rw [unpacked, unpacked']
        rfl
      · exact absurd ((rational_eq_zero_iff y).mp zero') (size_pos_of_mantissa positive' value').ne'
  obtain ⟨total, exponent, sum, added⟩ := exists_add_eq_normalize finite finite' zero zero'
  rw [added, sum]
  refine ofModel_pack_normalize exponent .positive ?_
  rintro rfl
  exact nonzero (by rw [sum, Int.cast_zero, zero_mul])

theorem add_eq_zero (zero : rational x + rational y = 0) :
    ∃ negative, x + y = rounding negative 0 := by
  by_cases none : rational x = 0
  · have none' : rational y = 0 := by rwa [none, zero_add] at zero
    rcases unpack_cases finite with ⟨_, unpacked⟩ | ⟨m, e, positive, _, value, _⟩
    swap
    · exact absurd ((rational_eq_zero_iff x).mp none) (size_pos_of_mantissa positive value).ne'
    rcases unpack_cases finite' with ⟨_, unpacked'⟩ | ⟨m', e', positive', _, value', _⟩
    swap
    · exact absurd ((rational_eq_zero_iff y).mp none') (size_pos_of_mantissa positive' value').ne'
    refine ⟨isNegative x && isNegative y, ?_⟩
    change Float.ofModel (Float.Model.pack
      (UnpackedFloat.add Format.binary64 x.toModel.unpack y.toModel.unpack)) = _
    rw [← ofModel_pack_zero, unpacked, unpacked']
    cases isNegative x <;> cases isNegative y <;> rfl
  · have none' : rational y ≠ 0 := by
      intro same
      rw [same, add_zero] at zero
      exact none zero
    obtain ⟨total, exponent, sum, added⟩ := exists_add_eq_normalize finite finite' none none'
    have unit : (0 : ℚ) < 2 ^ exponent := by positivity
    have total0 : total = 0 := by
      rw [zero] at sum
      exact_mod_cast (mul_eq_zero.mp sum.symm).resolve_right unit.ne'
    refine ⟨false, ?_⟩
    rw [added, total0, ← ofModel_pack_zero]
    rfl

end

end Worksheet
