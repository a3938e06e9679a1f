import Mathlib
import Worksheet.Proofs.Number.Plain
import Worksheet.Proofs.Number.Quotient
import Worksheet.Proofs.Number.Rounded

/-!
# Rounding as the machine does it

A finite number is a sign and a rational of the grid. The machine keeps a mantissa and two further
bits of a result that may be endless. The two bits say where the result lies between two mantissas,
shifting keeps them right, and they settle the nearest mantissa. So what the machine packs is the
number that the rational rounds to.
-/

set_option autoImplicit false

namespace Worksheet

open Float.Model Float.Model.UnpackedFloat

def size (x : Float) : ℚ :=
  Magnitude.point (magnitudeBits x)

/-- The number with the given sign that is nearest to a rational that is not negative. -/
def rounding (negative : Bool) (v : ℚ) : Float :=
  Float.ofBits (.ofNat ((if negative then signBit else 0) +
    min (Magnitude.roundedBits v) (2047 * 2 ^ 52)))

theorem size_eq (x : Float) :
    size x = (Magnitude.ofFloat x).mantissa * 2 ^ (Magnitude.ofFloat x).exponent := rfl

theorem size_nonneg (x : Float) : 0 ≤ size x :=
  Magnitude.point_nonneg _

theorem onGrid_size (x : Float) : Magnitude.OnGrid (size x) :=
  Magnitude.onGrid_point _

theorem size_pos_iff (x : Float) : 0 < size x ↔ 0 < (Magnitude.ofFloat x).mantissa := by
  rw [size_eq, mul_pos_iff_of_pos_right (by positivity)]
  exact Nat.cast_pos

theorem size_eq_zero_iff (x : Float) : size x = 0 ↔ (Magnitude.ofFloat x).mantissa = 0 := by
  have positive := size_pos_iff x
  have nonneg := size_nonneg x
  constructor
  · intro zero
    rw [zero] at positive
    simpa using positive
  · intro zero
    rw [size_eq, zero, Nat.cast_zero, zero_mul]

theorem nearest_eq_rounding (negative : Bool) {n d : Nat} (positive : 0 < d) :
    nearest negative n d = rounding negative (n / d) := by
  rw [nearest, Magnitude.nearestBits_eq_min positive, rounding]

section Rounding

variable {negative : Bool} {v : ℚ}

theorem isFinite_rounding_of_lt (below : Magnitude.roundedBits v < 2047 * 2 ^ 52) :
    (rounding negative v).isFinite = true ∧ isNegative (rounding negative v) = negative ∧
      magnitudeBits (rounding negative v) = Magnitude.roundedBits v := by
  unfold rounding
  rw [min_eq_left below.le]
  generalize Magnitude.roundedBits v = bits at below
  have small : bits < signBit := below.trans (by decide)
  have toNat : (UInt64.ofNat ((if negative then signBit else 0) + bits)).toNat =
      (if negative then signBit else 0) + bits := by
    apply UInt64.toNat_ofNat_of_lt'
    change _ < signBit + signBit
    split <;> omega
  have remainder : ((if negative then signBit else 0) + bits) % signBit = bits := by
    cases negative with
    | false => simpa using Nat.mod_eq_of_lt small
    | true => simpa using Nat.mod_eq_of_lt small
  have read := @toBits_ofBits (.ofNat ((if negative then signBit else 0) + bits))
    (by rw [toNat, remainder]; exact below)
  have magnitude :
      magnitudeBits (Float.ofBits (.ofNat ((if negative then signBit else 0) + bits))) = bits := by
    rw [magnitudeBits, read, toNat, remainder]
  refine ⟨(isFinite_iff_magnitudeBits_lt _).mpr (by rwa [magnitude]), ?_, magnitude⟩
  rw [isNegative, read, toNat]
  cases negative with
  | false => simpa using small
  | true => simp

theorem isFinite_rounding_iff :
    (rounding negative v).isFinite = true ↔ Magnitude.roundedBits v < 2047 * 2 ^ 52 := by
  refine ⟨fun finite => ?_, fun below => (isFinite_rounding_of_lt below).1⟩
  by_contra above
  rw [rounding, min_eq_right (not_lt.mp above)] at finite
  revert finite
  cases negative <;> decide +kernel

theorem point_infinity : Magnitude.point (2047 * 2 ^ 52) = 2 ^ (1024 : ℤ) := by
  have bits : 2047 * 2 ^ 52 = (971 + 1074 : ℤ).toNat * 2 ^ 52 + 2 ^ 53 := by decide
  rw [bits, Magnitude.point_eq le_rfl (by norm_num) (.inl (by norm_num)), Nat.cast_pow,
    Nat.cast_ofNat, ← zpow_natCast, ← zpow_add₀ two_ne_zero]
  norm_num

theorem isFinite_rounding_iff_lt :
    (rounding negative v).isFinite = true ↔ Magnitude.rounded v < 2 ^ (1024 : ℤ) := by
  rw [isFinite_rounding_iff, ← point_infinity, Magnitude.rounded,
    Magnitude.point_strictMono.lt_iff_lt]

theorem isFinite_rounding_of_le (nonneg : 0 ≤ v) (small : v ≤ 2 ^ 53) :
    (rounding negative v).isFinite = true := by
  have onGrid := @Magnitude.onGrid_natCast (2 ^ 53) le_rfl
  rw [Nat.cast_pow, Nat.cast_ofNat] at onGrid
  rw [isFinite_rounding_iff_lt]
  calc Magnitude.rounded v ≤ 2 ^ 53 := Magnitude.rounded_le nonneg onGrid small
    _ = 2 ^ (53 : ℤ) := (zpow_natCast _ _).symm
    _ < 2 ^ (1024 : ℤ) := zpow_lt_zpow_right₀ one_lt_two (by norm_num)

theorem rounded_limit : Magnitude.rounded (2 ^ (1024 : ℤ) - 2 ^ (970 : ℤ)) = 2 ^ (1024 : ℤ) := by
  have infinity : (2 : ℚ) ^ (1024 : ℤ) = 2 ^ 54 * 2 ^ (970 : ℤ) := by
    rw [← zpow_natCast, ← zpow_add₀ two_ne_zero]
    norm_num
  have double : (2 : ℚ) ^ (971 : ℤ) = 2 * 2 ^ (970 : ℤ) := by
    rw [← zpow_one_add₀ two_ne_zero]
    norm_num
  have quotient : (2 ^ (1024 : ℤ) - 2 ^ (970 : ℤ) : ℚ) / 2 ^ (971 : ℤ) = 2 ^ 53 - 1 / 2 := by
    rw [infinity, double, div_eq_iff (by positivity)]
    ring
  have isHalfEven : IsHalfEven (2 ^ 53) (2 ^ 53 - 1 / 2) :=
    ⟨by norm_num, by norm_num, fun _ => by norm_num, fun _ => by norm_num⟩
  have positive : (0 : ℚ) < 2 ^ (1024 : ℤ) - 2 ^ (970 : ℤ) :=
    sub_pos.mpr (zpow_lt_zpow_right₀ one_lt_two (by norm_num))
  have bits := Magnitude.roundedBits_eq positive (by norm_num : (-1074 : ℤ) ≤ 971)
    (by rw [quotient]; norm_num) (.inl (by rw [quotient]; norm_num)) (quotient ▸ isHalfEven)
  rw [Magnitude.rounded, bits, ← point_infinity]
  rfl

/-- Rationals round to a finite number up to halfway between the greatest one and the next power of
two, which takes the place of infinity. -/
theorem isFinite_rounding_iff_lt_limit (nonneg : 0 ≤ v) :
    (rounding negative v).isFinite = true ↔ v < 2 ^ (1024 : ℤ) - 2 ^ (970 : ℤ) := by
  rw [isFinite_rounding_iff_lt]
  constructor
  · intro below
    by_contra above
    have positive : (0 : ℚ) < 2 ^ (1024 : ℤ) - 2 ^ (970 : ℤ) :=
      sub_pos.mpr (zpow_lt_zpow_right₀ one_lt_two (by norm_num))
    have order := Magnitude.rounded_le_rounded positive.le (not_lt.mp above)
    rw [rounded_limit] at order
    exact absurd below (not_lt.mpr order)
  · -- Below the limit the greatest number is nearer than the power of two.
    intro below
    have unit : (0 : ℚ) < 2 ^ (971 : ℤ) := by positivity
    have double : (2 : ℚ) ^ (971 : ℤ) = 2 * 2 ^ (970 : ℤ) := by
      rw [← zpow_one_add₀ two_ne_zero]
      norm_num
    have greatest : Magnitude.OnGrid (2 ^ (1024 : ℤ) - 2 ^ (971 : ℤ)) :=
      @Magnitude.onGrid_before_power 1024 (by norm_num)
    rcases le_or_gt v (2 ^ (1024 : ℤ) - 2 ^ (971 : ℤ)) with small | large
    · exact (Magnitude.rounded_le nonneg greatest small).trans_lt (sub_lt_self _ unit)
    · have closest := Magnitude.closest_rounded nonneg greatest
      rw [abs_of_neg (sub_neg.mpr large), double] at closest
      linarith [le_abs_self (Magnitude.rounded v - v)]

theorem rounding_of_large {w : ℚ} (large : (2 : ℚ) ^ (1024 : ℤ) ≤ v)
    (large' : (2 : ℚ) ^ (1024 : ℤ) ≤ w) : rounding negative v = rounding negative w := by
  have infinite {q : ℚ} (large : (2 : ℚ) ^ (1024 : ℤ) ≤ q) :
      2047 * 2 ^ 52 ≤ Magnitude.roundedBits q := by
    rw [← point_infinity] at large
    rw [← Magnitude.point_strictMono.le_iff_le]
    exact Magnitude.le_rounded (Magnitude.onGrid_point _) large
  rw [rounding, rounding, min_eq_right (infinite large), min_eq_right (infinite large')]

theorem isNegative_rounding (finite : (rounding negative v).isFinite = true) :
    isNegative (rounding negative v) = negative :=
  (isFinite_rounding_of_lt (isFinite_rounding_iff.mp finite)).2.1

theorem size_rounding (finite : (rounding negative v).isFinite = true) :
    size (rounding negative v) = Magnitude.rounded v := by
  rw [size, (isFinite_rounding_of_lt (isFinite_rounding_iff.mp finite)).2.2, Magnitude.rounded]

theorem rounding_congr {w : ℚ} (same : Magnitude.rounded v = Magnitude.rounded w) :
    rounding negative v = rounding negative w := by
  rw [rounding, rounding, Magnitude.point_injective same]

end Rounding

theorem magnitudeBits_lt {x : Float} (finite : x.isFinite = true) :
    magnitudeBits x < 2047 * 2 ^ 52 :=
  (isFinite_iff_magnitudeBits_lt x).mp finite

theorem rounding_size {x : Float} (finite : x.isFinite = true) :
    rounding (isNegative x) (size x) = x := by
  rw [rounding, size, Magnitude.roundedBits_point, min_eq_left (magnitudeBits_lt finite).le,
    ← toNat_toBits, UInt64.ofNat_toNat, ofBits_toBits]

/-! ## Packing a mantissa and an exponent -/

def signOf (negative : Bool) : Sign :=
  if negative then .negative else .positive

theorem toNat_toBitVec_signOf (negative : Bool) :
    (signOf negative).toBitVec.toNat * 2 ^ 63 = if negative then signBit else 0 := by
  cases negative <;> rfl

theorem ofModel_pack {unpacked : UnpackedFloat} {bits : Nat}
    (packed : (UnpackedFloat.pack Format.binary64 unpacked).toNat = bits) :
    Float.ofModel (Float.Model.pack unpacked) = Float.ofBits (.ofNat bits) := by
  have same : (UInt64.ofNat bits).toBitVec = UnpackedFloat.pack Format.binary64 unpacked := by
    apply BitVec.eq_of_toNat_eq
    rw [UInt64.toNat_toBitVec, packed]
    have bound := (UnpackedFloat.pack Format.binary64 unpacked).isLt
    rw [packed] at bound
    exact UInt64.toNat_ofNat_of_lt' bound
  simp only [Float.ofBits, Float.Model.ofBits, Float.Model.pack, same]
  congr 2
  rw [pack_unpack _ valid_pack]

theorem biased_exponent (exponent : ℤ) :
    (exponent + Format.binary64.exponentBias +
      Format.binary64.mantissaBitsWithoutImplicit).toNat = (exponent + 1075).toNat := by
  change (exponent + (1023 : Nat) + (52 : Nat)).toNat = _
  congr 1
  push_cast
  ring

section

variable (negative : Bool) {mantissa : Nat} {exponent : ℤ} (positive : 0 < mantissa)

theorem pack_of_large (large : 972 ≤ exponent) :
    UnpackedFloat.pack Format.binary64 (.finite (signOf negative) mantissa exponent positive) =
      packedInfinity Format.binary64 (signOf negative) := by
  unfold UnpackedFloat.pack
  refine if_pos ?_
  rw [biased_exponent]
  change 2048 ≤ (exponent + 1075).toNat + 1
  omega

theorem toNat_pack_of_long (long : 2 ^ 52 ≤ mantissa) (small : mantissa < 2 ^ 53)
    (least : -1074 ≤ exponent) (less : exponent < 972) :
    (UnpackedFloat.pack Format.binary64
      (.finite (signOf negative) mantissa exponent positive)).toNat =
        (if negative then signBit else 0) + ((exponent + 1074).toNat * 2 ^ 52 + mantissa) := by
  have field : (BitVec.ofNat 11 (exponent + 1075).toNat).toNat = (exponent + 1075).toNat := by
    rw [BitVec.toNat_ofNat, Nat.mod_eq_of_lt (by omega)]
  have notFull : BitVec.ofNat 11 (exponent + 1075).toNat ≠ -1#11 := by
    intro full
    have top : (exponent + 1075).toNat = 2047 := field ▸ congrArg BitVec.toNat full
    omega
  have packed := pack_normal (signOf negative) _ mantissa positive long small notFull
  rw [finite_congr positive rfl (by omega :
    ((BitVec.ofNat 11 (exponent + 1075).toNat).toNat : ℤ) - 1075 = exponent)] at packed
  rw [packed, toNat_packComponents, toNat_toBitVec_signOf, field, BitVec.toNat_ofNat]
  omega

theorem toNat_pack_of_short (short : mantissa < 2 ^ 52) :
    (UnpackedFloat.pack Format.binary64
      (.finite (signOf negative) mantissa (-1074) positive)).toNat =
        (if negative then signBit else 0) + mantissa := by
  rw [pack_subnormal _ _ positive short, toNat_packComponents, toNat_toBitVec_signOf,
    BitVec.toNat_ofNat]
  change _ + 0 * 2 ^ 52 + mantissa % 2 ^ 52 = _
  omega

theorem toNat_pack_finite (small : mantissa < 2 ^ 53) (least : -1074 ≤ exponent)
    (normal : 2 ^ 52 ≤ mantissa ∨ exponent = -1074) :
    (UnpackedFloat.pack Format.binary64
      (.finite (signOf negative) mantissa exponent positive)).toNat =
        (if negative then signBit else 0) +
          min ((exponent + 1074).toNat * 2 ^ 52 + mantissa) (2047 * 2 ^ 52) := by
  rcases le_or_gt 972 exponent with large | less
  · rw [pack_of_large negative positive large, packedInfinity, toNat_packComponents,
      toNat_toBitVec_signOf, min_eq_right (by omega)]
    rfl
  · rw [min_eq_left (by omega)]
    by_cases long : 2 ^ 52 ≤ mantissa
    · exact toNat_pack_of_long negative positive long small least less
    · obtain rfl := normal.resolve_left long
      rw [toNat_pack_of_short negative positive (not_le.mp long)]
      norm_num

end

/-- The rational lies behind the mantissa where the two further bits say. -/
def Locates (extended : ExtendedMantissa) (v : ℚ) : Prop :=
  match extended.roundBit, extended.stickyBit with
  | false, false => v = extended.mantissa
  | false, true => extended.mantissa < v ∧ v < extended.mantissa + 1 / 2
  | true, false => v = extended.mantissa + 1 / 2
  | true, true => extended.mantissa + 1 / 2 < v ∧ v < extended.mantissa + 1

namespace Locates

variable {extended : ExtendedMantissa} {v : ℚ}

theorem exact (mantissa : Nat) : Locates (.ofMantissaAndAccuracy mantissa .exact) mantissa := rfl

theorem bounds (locates : Locates extended v) :
    (extended.mantissa : ℚ) ≤ v ∧ v < extended.mantissa + 1 := by
  obtain ⟨mantissa, roundBit, stickyBit⟩ := extended
  cases roundBit <;> cases stickyBit <;> simp only [Locates] at locates <;>
    constructor <;> linarith

theorem shiftRightOne (locates : Locates extended v) : Locates extended.shiftRightOne (v / 2) := by
  obtain ⟨mantissa, roundBit, stickyBit⟩ := extended
  have whole : (mantissa : ℚ) = 2 * (mantissa / 2 : Nat) + (mantissa % 2 : Nat) := by
    exact_mod_cast (Nat.div_add_mod mantissa 2).symm
  rcases Nat.mod_two_eq_zero_or_one mantissa with even | odd
  · rw [even] at whole
    cases roundBit <;> cases stickyBit <;>
      simp [Locates, ExtendedMantissa.shiftRightOne, even, whole] at locates ⊢ <;>
        (try constructor) <;> linarith
  · rw [odd] at whole
    cases roundBit <;> cases stickyBit <;>
      simp [Locates, ExtendedMantissa.shiftRightOne, odd, whole] at locates ⊢ <;>
        (try constructor) <;> linarith

theorem shiftRight (locates : Locates extended v) (steps : Nat) :
    Locates (extended >>> steps) (v / 2 ^ steps) := by
  change Locates (steps.repeat ExtendedMantissa.shiftRightOne extended) _
  induction steps with
  | zero => simpa [Nat.repeat] using locates
  | succ steps ih =>
      rw [pow_succ, div_mul_eq_div_div]
      exact ih.shiftRightOne

theorem isHalfEven (locates : Locates extended v) : IsHalfEven extended.roundedMantissa v := by
  obtain ⟨mantissa, roundBit, stickyBit⟩ := extended
  cases roundBit with
  | false =>
      cases stickyBit with
      | false =>
          change v = mantissa at locates
          rw [locates]
          exact .natCast mantissa
      | true =>
          obtain ⟨above, below⟩ := locates
          change (mantissa : ℚ) < v at above
          change v < mantissa + 1 / 2 at below
          change IsHalfEven mantissa v
          exact ⟨by linarith, by linarith, fun same => by linarith, fun same => by linarith⟩
  | true =>
      cases stickyBit with
      | false =>
          change v = mantissa + 1 / 2 at locates
          change IsHalfEven (mantissa + mantissa % 2) v
          rcases Nat.mod_two_eq_zero_or_one mantissa with even | odd
          · rw [even, add_zero]
            exact ⟨by linarith, by linarith, fun _ => even, fun _ => even⟩
          · have next : (mantissa + 1) % 2 = 0 := by omega
            have cast : ((mantissa + 1 : Nat) : ℚ) = mantissa + 1 := Nat.cast_succ _
            rw [odd]
            exact ⟨by linarith, by linarith, fun _ => next, fun _ => next⟩
      | true =>
          obtain ⟨above, below⟩ := locates
          change mantissa + 1 / 2 < v at above
          change v < mantissa + 1 at below
          have cast : ((mantissa + 1 : Nat) : ℚ) = mantissa + 1 := Nat.cast_succ _
          change IsHalfEven (mantissa + 1) v
          exact ⟨by linarith, by linarith, fun same => by linarith, fun same => by linarith⟩

end Locates

/-! ## Rounding as the machine does it -/

theorem shiftToTargetExponent_eq (mantissa : Nat) (exponent : ℤ) (accuracy : Accuracy) :
    shiftToTargetExponent Format.binary64 mantissa exponent accuracy =
      (ExtendedMantissa.ofMantissaAndAccuracy mantissa accuracy >>>
          (max (mantissa.log2 + 1 + exponent - 53) (-1074) - exponent).toNat,
        exponent + (max (mantissa.log2 + 1 + exponent - 53) (-1074) - exponent).toNat) := rfl

theorem mantissa_ofMantissaAndAccuracy (mantissa : Nat) (accuracy : Accuracy) :
    (ExtendedMantissa.ofMantissaAndAccuracy mantissa accuracy).mantissa = mantissa := by
  rcases accuracy with _ | order
  · rfl
  · cases order <;> rfl

/-- The machine aims at the exponent of the points around the result. -/
theorem target_eq_gridExponent {mantissa : Nat} {exponent : ℤ} {v : ℚ} (positive : 0 < v)
    (low : mantissa ≤ v / 2 ^ exponent) (high : v / 2 ^ exponent < mantissa + 1)
    (long : 2 ^ 52 ≤ mantissa ∨ exponent ≤ -1074) :
    ∃ steps : Nat, max (mantissa.log2 + 1 + exponent - 53) (-1074) = exponent + steps ∧
      Magnitude.gridExponent v = exponent + steps := by
  obtain ⟨target, targetEq⟩ : ∃ target : ℤ,
      target = max (mantissa.log2 + 1 + exponent - 53) (-1074) := ⟨_, rfl⟩
  have above : exponent ≤ target := by
    rcases long with long | small
    · have bits : 52 ≤ mantissa.log2 :=
        (Nat.le_log2 (by rintro rfl; exact absurd long (by norm_num))).mpr long
      omega
    · omega
  obtain ⟨steps, stepsEq⟩ : ∃ steps : Nat, target = exponent + steps :=
    ⟨(target - exponent).toNat, by omega⟩
  have power : (0 : ℚ) < 2 ^ steps := by positivity
  have scaled : v / 2 ^ (exponent + steps : ℤ) = v / 2 ^ exponent / 2 ^ steps := by
    rw [zpow_add₀ two_ne_zero, zpow_natCast, div_mul_eq_div_div]
  refine ⟨steps, by rw [← targetEq, stepsEq], Magnitude.gridExponent_eq positive (by omega) ?_ ?_⟩
  · have short : (mantissa : ℚ) + 1 ≤ 2 ^ (mantissa.log2 + 1) := by
      exact_mod_cast Nat.lt_log2_self (n := mantissa)
    rw [scaled, div_lt_iff₀ power, ← pow_add]
    exact (high.trans_le short).trans_le (pow_le_pow_right₀ one_le_two (by omega))
  · by_cases least : target = -1074
    · exact .inr (stepsEq ▸ least)
    · left
      have nonzero : mantissa ≠ 0 := by
        rintro rfl
        simp only [Nat.log2_zero] at targetEq
        omega
      have atLeast : (2 : ℚ) ^ mantissa.log2 ≤ mantissa := by
        exact_mod_cast Nat.log2_self_le nonzero
      rw [scaled, le_div_iff₀ power, ← pow_add]
      refine le_trans (pow_le_pow_right₀ one_le_two ?_) (atLeast.trans low)
      omega

theorem shiftToTargetExponent_spec {mantissa : Nat} {exponent : ℤ} {accuracy : Accuracy} {v : ℚ}
    (positive : 0 < v)
    (locates : Locates (.ofMantissaAndAccuracy mantissa accuracy) (v / 2 ^ exponent))
    (long : 2 ^ 52 ≤ mantissa ∨ exponent ≤ -1074) :
    ∃ extended, shiftToTargetExponent Format.binary64 mantissa exponent accuracy =
        (extended, Magnitude.gridExponent v) ∧
      Locates extended (v / 2 ^ Magnitude.gridExponent v) := by
  obtain ⟨low, high⟩ := locates.bounds
  rw [mantissa_ofMantissaAndAccuracy] at low high
  obtain ⟨steps, target, grid⟩ := target_eq_gridExponent positive low high long
  have scaled : v / 2 ^ (exponent + steps : ℤ) = v / 2 ^ exponent / 2 ^ steps := by
    rw [zpow_add₀ two_ne_zero, zpow_natCast, div_mul_eq_div_div]
  have count : (exponent + (steps : ℤ) - exponent).toNat = steps := by omega
  refine ⟨_, ?_, by rw [grid, scaled]; exact locates.shiftRight steps⟩
  rw [shiftToTargetExponent_eq, target, grid, count]

theorem shiftToTargetExponent_rounded {mantissa : Nat} {exponent : ℤ}
    (small : mantissa ≤ 2 ^ 53) (least : -1074 ≤ exponent) :
    ∃ extended, shiftToTargetExponent Format.binary64 mantissa exponent .exact =
        (extended, if mantissa = 2 ^ 53 then exponent + 1 else exponent) ∧
      extended.mantissa = if mantissa = 2 ^ 53 then 2 ^ 52 else mantissa := by
  rw [shiftToTargetExponent_eq]
  rcases small.lt_or_eq with less | rfl
  · have short : mantissa.log2 ≤ 52 := by
      rcases Nat.eq_zero_or_pos mantissa with rfl | positive
      · simp
      · exact Nat.lt_succ_iff.mp ((Nat.log2_lt positive.ne').mpr less)
    have none : (max ((mantissa.log2 : ℤ) + 1 + exponent - 53) (-1074) - exponent).toNat = 0 := by
      omega
    rw [none, if_neg less.ne, if_neg less.ne, Nat.cast_zero, add_zero]
    exact ⟨_, rfl, rfl⟩
  · have one : (max (((2 ^ 53 : Nat).log2 : ℤ) + 1 + exponent - 53) (-1074) - exponent).toNat =
        1 := by
      rw [Nat.log2_two_pow]
      omega
    rw [one, if_pos rfl, if_pos rfl]
    exact ⟨_, rfl, rfl⟩

/-- The machine rounds a located result as the rational is rounded. -/
theorem ofModel_pack_roundWithAccuracy (negative : Bool) {mantissa : Nat} {exponent : ℤ}
    {accuracy : Accuracy} {v : ℚ} (positive : 0 < v)
    (locates : Locates (.ofMantissaAndAccuracy mantissa accuracy) (v / 2 ^ exponent))
    (long : 2 ^ 52 ≤ mantissa ∨ exponent ≤ -1074) :
    Float.ofModel (Float.Model.pack
      (roundWithAccuracy Format.binary64 (signOf negative) mantissa exponent accuracy)) =
        rounding negative v := by
  obtain ⟨extended, shifted, located⟩ := shiftToTargetExponent_spec positive locates long
  obtain ⟨m, small, isHalfEven, bits, _⟩ := Magnitude.roundedBits_spec positive
  have least := Magnitude.gridExponent_ge v
  have normal := (Magnitude.gridExponent_spec positive).2
  have same := located.isHalfEven.unique isHalfEven
  have longRounded : 2 ^ 52 ≤ m ∨ Magnitude.gridExponent v = -1074 :=
    normal.imp_left fun normal => isHalfEven.le_of_natCast_le (by exact_mod_cast normal)
  generalize Magnitude.gridExponent v = e at shifted bits least longRounded
  obtain ⟨final, carried, finalMantissa⟩ := shiftToTargetExponent_rounded small least
  unfold roundWithAccuracy
  rw [shifted]
  simp only [same, carried, finalMantissa]
  rw [rounding, bits]
  apply ofModel_pack
  by_cases carry : m = 2 ^ 53
  · have sameBits : (e + 1 + 1074).toNat * 2 ^ 52 + 2 ^ 52 =
        (e + 1074).toNat * 2 ^ 52 + 2 ^ 53 := by omega
    simp only [carry, if_true]
    rw [dif_neg (by norm_num), toNat_pack_finite negative _ (by norm_num) (by omega)
      (.inl le_rfl), sameBits]
  · simp only [carry, if_false]
    by_cases zero : m = 0
    · have lowest : e = -1074 := longRounded.resolve_left (by omega)
      rw [dif_pos zero, zero, lowest]
      cases negative <;> rfl
    · rw [dif_neg zero, toNat_pack_finite negative _ (by omega) least longRounded]

end Worksheet
