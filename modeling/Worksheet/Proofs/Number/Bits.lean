import Mathlib
import Worksheet.Number.Spelling

/-!
# Bits of floating-point numbers

A finite number is given by its sign and by the bits below it, which number the magnitudes in
increasing order. `unsigned` is the number with the same magnitude and no sign; negating it gives
a negative number back. Adding zero takes the sign from a zero and changes nothing else.
-/

set_option autoImplicit false

namespace Worksheet

open Float.Model Float.Model.UnpackedFloat

theorem toNat_unpackMantissa (b : BitVec 64) :
    (@unpackMantissa Format.binary64 b).toNat = b.toNat % 2 ^ 52 := by
  simp [unpackMantissa, BitVec.extractLsb, BitVec.extractLsb'_toNat]

theorem toNat_unpackExponent (b : BitVec 64) :
    (@unpackExponent Format.binary64 b).toNat = b.toNat / 2 ^ 52 % 2 ^ 11 := by
  simp [unpackExponent, BitVec.extractLsb, BitVec.extractLsb'_toNat, Nat.shiftRight_eq_div_pow]

theorem toNat_unpackSign (b : BitVec 64) :
    (@unpackSign Format.binary64 b).toNat = b.toNat / 2 ^ 63 := by
  have small := b.isLt
  simp [unpackSign, BitVec.extractLsb, BitVec.extractLsb'_toNat, Nat.shiftRight_eq_div_pow]
  omega

theorem toNat_packComponents (sign : Sign) (exponent : BitVec 11) (mantissa : BitVec 52) :
    (packComponents Format.binary64 sign exponent mantissa).toNat =
      sign.toBitVec.toNat * 2 ^ 63 + exponent.toNat * 2 ^ 52 + mantissa.toNat := by
  have h1 := exponent.isLt
  have h2 := mantissa.isLt
  simp only [packComponents, BitVec.toNat_append]
  rw [← Nat.shiftLeft_add_eq_or_of_lt exponent.isLt,
    ← Nat.shiftLeft_add_eq_or_of_lt mantissa.isLt]
  simp only [Nat.shiftLeft_eq]
  ring

theorem toBitVec_ofBitVec (s : BitVec 1) : (Sign.ofBitVec s).toBitVec = s := by
  revert s; decide

theorem packComponents_unpack (b : BitVec 64) :
    packComponents Format.binary64 (Sign.ofBitVec (@unpackSign Format.binary64 b))
      (@unpackExponent Format.binary64 b) (@unpackMantissa Format.binary64 b) =
        b := by
  apply BitVec.eq_of_toNat_eq
  rw [toNat_packComponents, toBitVec_ofBitVec, toNat_unpackSign, toNat_unpackExponent,
    toNat_unpackMantissa]
  have small := b.isLt
  omega

theorem pack_subnormal (sign : Sign) (mantissa : Nat) (positive : 0 < mantissa)
    (small : mantissa < 2 ^ 52) :
    UnpackedFloat.pack Format.binary64 (.finite sign mantissa (-1074) positive) =
      packComponents Format.binary64 sign 0#11 (BitVec.ofNat 52 mantissa) := by
  have short : mantissa.log2 < 52 := (Nat.log2_lt positive.ne').mpr small
  unfold UnpackedFloat.pack
  refine (if_neg ?_).trans (if_neg ?_)
  · decide
  · intro long
    have long' : mantissa.log2 + 1 = 53 := long
    omega

theorem pack_normal (sign : Sign) (exponent : BitVec 11) (mantissa : Nat)
    (positive : 0 < mantissa) (low : 2 ^ 52 ≤ mantissa) (high : mantissa < 2 ^ 53)
    (notFull : exponent ≠ -1#11) :
    UnpackedFloat.pack Format.binary64 (.finite sign mantissa (exponent.toNat - 1075) positive) =
      packComponents Format.binary64 sign exponent (BitVec.ofNat 52 mantissa) := by
  have short : mantissa.log2 < 53 := (Nat.log2_lt positive.ne').mpr high
  have long : 52 ≤ mantissa.log2 := (Nat.le_log2 positive.ne').mpr low
  have bound := exponent.isLt
  have below : exponent.toNat ≠ 2047 := fun same => notFull (BitVec.eq_of_toNat_eq same)
  have biased : ((exponent.toNat : Int) - 1075 + Format.binary64.exponentBias +
      Format.binary64.mantissaBitsWithoutImplicit).toNat = exponent.toNat := by
    change ((exponent.toNat : Int) - 1075 + (1023 : Nat) + (52 : Nat)).toNat = exponent.toNat
    omega
  unfold UnpackedFloat.pack
  refine (if_neg ?_).trans ((if_pos ?_).trans ?_)
  · rw [biased]
    change ¬ 2048 ≤ exponent.toNat + 1
    omega
  · change mantissa.log2 + 1 = 53
    omega
  · rw [biased]
    rw [BitVec.ofNat_toNat, BitVec.setWidth_eq]

theorem toNat_implicit_append (mantissa : BitVec 52) :
    (1#1 ++ mantissa).toNat = 2 ^ 52 + mantissa.toNat := by
  rw [BitVec.toNat_append, ← Nat.shiftLeft_add_eq_or_of_lt mantissa.isLt]
  simp [Nat.shiftLeft_eq]

/-- Packing undoes unpacking, because there is only one pattern for what is not a number. -/
theorem pack_unpack (b : BitVec 64) (valid : Format.binary64.Valid b) :
    UnpackedFloat.pack Format.binary64 (UnpackedFloat.unpack Format.binary64 b) = b := by
  have whole := packComponents_unpack b
  have mantissaBound := (@unpackMantissa Format.binary64 b).isLt
  have exponentBound := (@unpackExponent Format.binary64 b).isLt
  unfold UnpackedFloat.unpack
  by_cases full : @unpackExponent Format.binary64 b = -1#_
  · by_cases zero : @unpackMantissa Format.binary64 b = 0#_
    · simp only [full, zero, if_true, UnpackedFloat.pack, packedInfinity]
      rw [full, zero] at whole
      exact whole
    · simp only [full, zero, if_true, if_false, UnpackedFloat.pack]
      exact (valid.eq_packedNaN full zero).symm
  · by_cases least : @unpackExponent Format.binary64 b = 0#_
    · by_cases zero : @unpackMantissa Format.binary64 b = 0#_
      · simp only [least, zero, if_true, dite_true, UnpackedFloat.pack, packedZero]
        rw [least, zero] at whole
        exact whole
      · have positive : 0 < (@unpackMantissa Format.binary64 b).toNat := by
          simpa [BitVec.toNat_pos, BitVec.pos_iff_ne_zero] using zero
        rw [least] at whole
        simp only [least, zero, dite_false, if_true]
        refine (pack_subnormal _ _ positive mantissaBound).trans ?_
        rw [BitVec.ofNat_toNat, BitVec.setWidth_eq]
        exact whole
    · have implicit : (1#1 ++ @unpackMantissa Format.binary64 b).toNat =
          2 ^ 52 + (@unpackMantissa Format.binary64 b).toNat := toNat_implicit_append _
      simp only [full, least, if_false]
      refine (pack_normal _ _ _ (by omega) (by omega) ?_ full).trans ?_
      · rw [implicit]
        have bound : (@unpackMantissa Format.binary64 b).toNat < 2 ^ 52 := mantissaBound
        omega
      · have dropped : BitVec.ofNat 52 (1#1 ++ @unpackMantissa Format.binary64 b).toNat =
            @unpackMantissa Format.binary64 b := by
          apply BitVec.eq_of_toNat_eq
          rw [implicit, BitVec.toNat_ofNat, Nat.add_mod_left, Nat.mod_eq_of_lt mantissaBound]
        rw [dropped]
        exact whole

theorem ofModel_pack_unpack (x : Float) :
    Float.ofModel (Float.Model.pack x.toModel.unpack) = x := by
  obtain ⟨⟨bits, valid⟩⟩ := x
  simp only [Float.Model.pack, Float.Model.unpack]
  congr 2
  rw [pack_unpack _ valid, UInt64.ofBitVec_toBitVec]

theorem ofBits_toBits (x : Float) : Float.ofBits x.toBits = x := by
  obtain ⟨⟨bits, valid⟩⟩ := x
  simp only [Float.ofBits, Float.toBits, Float.Model.ofBits, Float.Model.pack]
  congr 2
  rw [pack_unpack _ valid, UInt64.ofBitVec_toBitVec]

theorem isFinite_iff (x : Float) :
    x.isFinite = true ↔ x.toModel.unpack.isFinite = true := Iff.rfl

/-! ## Sign and magnitude -/

def magnitudeBits (x : Float) : Nat :=
  x.toBits.toNat % signBit

theorem toBits_toNat (x : Float) : x.toBits.toNat = x.toModel.toBits.toBitVec.toNat := rfl

theorem isNegative_iff (x : Float) :
    isNegative x = true ↔ @unpackSign Format.binary64 x.toModel.toBits.toBitVec = 1#1 := by
  have small := x.toModel.toBits.toBitVec.isLt
  rw [← BitVec.toNat_inj, toNat_unpackSign, isNegative, decide_eq_true_iff, toBits_toNat]
  change 2 ^ 63 ≤ _ ↔ _ = 1
  change _ < 2 ^ 64 at small
  omega

def unpackedSign (x : Float) : Sign :=
  if isNegative x then .negative else .positive

theorem ofBitVec_unpackSign (x : Float) :
    Sign.ofBitVec (@unpackSign Format.binary64 x.toModel.toBits.toBitVec) =
      unpackedSign x := by
  unfold unpackedSign
  by_cases negative : isNegative x = true
  · rw [if_pos negative, (isNegative_iff x).mp negative]
    rfl
  · rw [if_neg negative]
    have other := mt (isNegative_iff x).mpr negative
    generalize @unpackSign Format.binary64 x.toModel.toBits.toBitVec = bit at other
    have clear : bit = 0#1 := by
      revert bit
      decide
    rw [clear]
    rfl

theorem magnitudeBits_eq (x : Float) :
    magnitudeBits x = (@unpackExponent Format.binary64 x.toModel.toBits.toBitVec).toNat *
        2 ^ 52 + (@unpackMantissa Format.binary64 x.toModel.toBits.toBitVec).toNat := by
  have small := x.toModel.toBits.toBitVec.isLt
  rw [toNat_unpackExponent, toNat_unpackMantissa, magnitudeBits, toBits_toNat]
  change _ % 2 ^ 63 = _
  omega

theorem ofFloat_mantissa_exponent (x : Float) :
    Magnitude.ofFloat x =
      if (@unpackExponent Format.binary64 x.toModel.toBits.toBitVec).toNat = 0 then
        ⟨(@unpackMantissa Format.binary64 x.toModel.toBits.toBitVec).toNat, -1074⟩
      else
        ⟨2 ^ 52 + (@unpackMantissa Format.binary64 x.toModel.toBits.toBitVec).toNat,
          (@unpackExponent Format.binary64 x.toModel.toBits.toBitVec).toNat - 1075⟩ := by
  have bound : (@unpackMantissa Format.binary64 x.toModel.toBits.toBitVec).toNat < 2 ^ 52 :=
    (@unpackMantissa Format.binary64 x.toModel.toBits.toBitVec).isLt
  have quotient : magnitudeBits x / 2 ^ 52 =
      (@unpackExponent Format.binary64 x.toModel.toBits.toBitVec).toNat := by
    rw [magnitudeBits_eq]
    omega
  have remainder : magnitudeBits x % 2 ^ 52 =
      (@unpackMantissa Format.binary64 x.toModel.toBits.toBitVec).toNat := by
    rw [magnitudeBits_eq]
    omega
  change Magnitude.ofBits (magnitudeBits x) = _
  unfold Magnitude.ofBits
  change (if magnitudeBits x / 2 ^ 52 = 0 then (⟨magnitudeBits x % 2 ^ 52, -1074⟩ : Magnitude)
    else ⟨2 ^ 52 + magnitudeBits x % 2 ^ 52, (magnitudeBits x / 2 ^ 52 : Nat) - 1075⟩) = _
  rw [quotient, remainder]

theorem finite_congr {sign : Sign} {m n : Nat} {e f : Int} (positive : 0 < m) (mantissas : m = n)
    (exponents : e = f) :
    UnpackedFloat.finite sign m e positive = .finite sign n f (mantissas ▸ positive) := by
  subst mantissas exponents
  rfl

theorem unpack_of_isFinite {x : Float} (finite : x.isFinite = true) :
    (Magnitude.ofFloat x).mantissa = 0 ∧ x.toModel.unpack = .zero (unpackedSign x) ∨
      ∃ positive : 0 < (Magnitude.ofFloat x).mantissa,
        x.toModel.unpack = .finite (unpackedSign x) (Magnitude.ofFloat x).mantissa
          (Magnitude.ofFloat x).exponent positive := by
  have read := ofFloat_mantissa_exponent x
  rw [isFinite_iff] at finite
  unfold Float.Model.unpack UnpackedFloat.unpack at finite ⊢
  simp only [ofBitVec_unpackSign] at finite ⊢
  by_cases full : @unpackExponent Format.binary64 x.toModel.toBits.toBitVec = -1#_
  · rw [if_pos full] at finite
    split at finite <;> simp [UnpackedFloat.isFinite] at finite
  · rw [if_neg full]
    by_cases least : @unpackExponent Format.binary64 x.toModel.toBits.toBitVec = 0#_
    · rw [if_pos (by rw [least]; rfl)] at read
      rw [if_pos least]
      by_cases zero : @unpackMantissa Format.binary64 x.toModel.toBits.toBitVec = 0#_
      · left
        rw [read, dif_pos zero, zero]
        exact ⟨rfl, rfl⟩
      · right
        have positive :
            0 < (@unpackMantissa Format.binary64 x.toModel.toBits.toBitVec).toNat := by
          simpa [BitVec.toNat_pos, BitVec.pos_iff_ne_zero] using zero
        refine ⟨by rw [read]; exact positive, ?_⟩
        rw [dif_neg zero]
        refine finite_congr _ (by rw [read]) ?_
        rw [read, least]
        rfl
    · have nonzero : (@unpackExponent Format.binary64 x.toModel.toBits.toBitVec).toNat ≠ 0 :=
        fun same => least (BitVec.eq_of_toNat_eq same)
      rw [if_neg nonzero] at read
      right
      refine ⟨by rw [read]; exact Nat.add_pos_left (by decide) _, ?_⟩
      rw [if_neg least]
      refine finite_congr _ ?_ ?_
      · rw [read]
        exact toNat_implicit_append _
      · rw [read]
        rfl

theorem isFinite_iff_magnitudeBits_lt (x : Float) :
    x.isFinite = true ↔ magnitudeBits x < 2047 * 2 ^ 52 := by
  have exponentBound : (@unpackExponent Format.binary64 x.toModel.toBits.toBitVec).toNat <
      2 ^ 11 := (@unpackExponent Format.binary64 x.toModel.toBits.toBitVec).isLt
  have mantissaBound : (@unpackMantissa Format.binary64 x.toModel.toBits.toBitVec).toNat <
      2 ^ 52 := (@unpackMantissa Format.binary64 x.toModel.toBits.toBitVec).isLt
  have notFull : x.isFinite = true ↔
      @unpackExponent Format.binary64 x.toModel.toBits.toBitVec ≠ -1#_ := by
    rw [isFinite_iff]
    unfold Float.Model.unpack UnpackedFloat.unpack
    simp only []
    constructor
    · intro finite full
      rw [if_pos full] at finite
      split at finite <;> simp [UnpackedFloat.isFinite] at finite
    · intro other
      rw [if_neg other]
      split
      · split <;> rfl
      · rfl
  have full : @unpackExponent Format.binary64 x.toModel.toBits.toBitVec ≠ -1#_ ↔
      (@unpackExponent Format.binary64 x.toModel.toBits.toBitVec).toNat ≠ 2047 :=
    not_congr BitVec.toNat_inj.symm
  rw [notFull, full, magnitudeBits_eq]
  omega

theorem ofBits_magnitudeBits {x : Float} (positive : isNegative x = false) :
    Float.ofBits (.ofNat (magnitudeBits x)) = x := by
  have below : x.toBits.toNat < signBit := by
    simpa [isNegative] using positive
  rw [magnitudeBits, Nat.mod_eq_of_lt below, UInt64.ofNat_toNat, ofBits_toBits]

theorem valid_of_lt {b : BitVec 64} (below : b.toNat % 2 ^ 63 < 2047 * 2 ^ 52) :
    Format.binary64.Valid b := by
  refine ⟨fun full => ?_⟩
  have exponent := congrArg BitVec.toNat full
  rw [toNat_unpackExponent] at exponent
  have full' : b.toNat / 2 ^ 52 % 2 ^ 11 = 2047 := exponent
  omega

theorem toBits_ofBits {u : UInt64} (below : u.toNat % signBit < 2047 * 2 ^ 52) :
    (Float.ofBits u).toBits = u := by
  simp only [Float.ofBits, Float.toBits, Float.Model.ofBits, Float.Model.pack]
  rw [pack_unpack _ (valid_of_lt below), UInt64.ofBitVec_toBitVec]

theorem magnitudeBits_ofBits {u : UInt64} (below : u.toNat < 2047 * 2 ^ 52) :
    magnitudeBits (Float.ofBits u) = u.toNat := by
  have small : u.toNat < signBit := below.trans (by decide)
  have same : u.toNat % signBit = u.toNat := Nat.mod_eq_of_lt small
  rw [magnitudeBits, toBits_ofBits (by rw [same]; exact below), same]

theorem isNegative_ofBits {u : UInt64} (below : u.toNat < 2047 * 2 ^ 52) :
    isNegative (Float.ofBits u) = false := by
  have small : u.toNat < signBit := below.trans (by decide)
  rw [isNegative, toBits_ofBits (by rw [Nat.mod_eq_of_lt small]; exact below)]
  exact decide_eq_false (Nat.not_le.mpr small)

def unsigned (x : Float) : Float :=
  Float.ofBits (.ofNat (magnitudeBits x))

section Unsigned

variable {x : Float} (finite : x.isFinite = true)
include finite

theorem toNat_ofNat_magnitudeBits : (UInt64.ofNat (magnitudeBits x)).toNat = magnitudeBits x := by
  have below := (isFinite_iff_magnitudeBits_lt x).mp finite
  exact UInt64.toNat_ofNat_of_lt' (below.trans (by decide))

theorem magnitudeBits_unsigned : magnitudeBits (unsigned x) = magnitudeBits x := by
  have below := (isFinite_iff_magnitudeBits_lt x).mp finite
  rw [unsigned, magnitudeBits_ofBits] <;> rw [toNat_ofNat_magnitudeBits finite]
  exact below

theorem isFinite_unsigned : (unsigned x).isFinite = true := by
  rw [isFinite_iff_magnitudeBits_lt, magnitudeBits_unsigned finite]
  exact (isFinite_iff_magnitudeBits_lt x).mp finite

theorem isNegative_unsigned : isNegative (unsigned x) = false := by
  have below := (isFinite_iff_magnitudeBits_lt x).mp finite
  exact isNegative_ofBits (by rw [toNat_ofNat_magnitudeBits finite]; exact below)

theorem ofFloat_unsigned : Magnitude.ofFloat (unsigned x) = Magnitude.ofFloat x := by
  change Magnitude.ofBits (magnitudeBits (unsigned x)) = Magnitude.ofBits (magnitudeBits x)
  rw [magnitudeBits_unsigned finite]

theorem neg_unsigned (negative : isNegative x = true) : -unsigned x = x := by
  have unpacked := unpack_of_isFinite (isFinite_unsigned finite)
  have original := unpack_of_isFinite finite
  have sign : unpackedSign (unsigned x) = .positive := by
    rw [unpackedSign, isNegative_unsigned finite]
    rfl
  have sign' : unpackedSign x = .negative := by
    rw [unpackedSign, negative]
    rfl
  rw [ofFloat_unsigned finite, sign] at unpacked
  rw [sign'] at original
  refine Eq.trans ?_ (ofModel_pack_unpack x)
  change Float.ofModel (Float.Model.pack (unsigned x).toModel.unpack.neg) =
    Float.ofModel (Float.Model.pack x.toModel.unpack)
  rcases unpacked with ⟨zero, unpacked⟩ | ⟨positive, unpacked⟩
  · rcases original with ⟨_, original⟩ | ⟨positive, _⟩
    · rw [unpacked, original]
      rfl
    · omega
  · rcases original with ⟨zero, _⟩ | ⟨_, original⟩
    · omega
    · rw [unpacked, original]
      rfl

end Unsigned

theorem unsigned_eq {x : Float} (positive : isNegative x = false) : unsigned x = x :=
  ofBits_magnitudeBits positive

theorem unpack_zero : (0.0 : Float).toModel.unpack = .zero .positive := rfl

theorem add_zero_of_unpack_finite {x : Float} {sign : Sign} {mantissa : Nat} {exponent : Int}
    {positive : 0 < mantissa}
    (unpacked : x.toModel.unpack = .finite sign mantissa exponent positive) : x + 0.0 = x := by
  change Float.ofModel (Float.Model.pack
    (UnpackedFloat.add Format.binary64 x.toModel.unpack (0.0 : Float).toModel.unpack)) = x
  rw [unpack_zero, unpacked]
  change Float.ofModel (Float.Model.pack (.finite sign mantissa exponent positive)) = x
  rw [← unpacked, ofModel_pack_unpack]

theorem add_zero_of_unpack_zero {x : Float} {sign : Sign}
    (unpacked : x.toModel.unpack = .zero sign) : x + 0.0 = 0.0 := by
  change Float.ofModel (Float.Model.pack
    (UnpackedFloat.add Format.binary64 x.toModel.unpack (0.0 : Float).toModel.unpack)) = 0.0
  rw [unpack_zero, unpacked]
  cases sign <;> rfl

theorem lt_zero_iff (x : Float) :
    x < 0.0 ↔ x.toModel.unpack.compare (.zero .positive) = some .lt := by
  change decide (x.toModel < (0.0 : Float).toModel) = true ↔ _
  rw [decide_eq_true_iff]
  change (x.toModel.unpack.compare (0.0 : Float).toModel.unpack == some .lt) = true ↔ _
  rw [unpack_zero, beq_iff_eq]

theorem add_zero_cases {x : Float} (finite : x.isFinite = true) :
    x + 0.0 = 0.0 ∨ x + 0.0 = x ∧ 0 < (Magnitude.ofFloat x).mantissa := by
  rcases unpack_of_isFinite finite with ⟨_, unpacked⟩ | ⟨positive, unpacked⟩
  · exact .inl (add_zero_of_unpack_zero unpacked)
  · exact .inr ⟨add_zero_of_unpack_finite unpacked, positive⟩

theorem isFinite_add_zero {x : Float} (finite : x.isFinite = true) : (x + 0.0).isFinite = true := by
  rcases add_zero_cases finite with zero | ⟨same, _⟩
  · rw [zero]
    rfl
  · rw [same]
    exact finite

theorem add_zero_add_zero {x : Float} (finite : x.isFinite = true) : x + 0.0 + 0.0 = x + 0.0 := by
  rcases add_zero_cases finite with zero | ⟨same, _⟩
  · rw [zero]
    rfl
  · rw [same, same]

theorem add_zero_of_nonnegative {x : Float} (finite : x.isFinite = true)
    (positive : isNegative x = false) : x + 0.0 = x := by
  have sign : unpackedSign x = .positive := by
    rw [unpackedSign, positive]
    rfl
  rcases unpack_of_isFinite finite with ⟨_, unpacked⟩ | ⟨_, unpacked⟩
  · rw [add_zero_of_unpack_zero unpacked, ← ofModel_pack_unpack x, unpacked, sign]
    rfl
  · exact add_zero_of_unpack_finite unpacked

theorem lt_zero_iff_isNegative {x : Float} (finite : x.isFinite = true) :
    x + 0.0 < 0.0 ↔ isNegative (x + 0.0) = true := by
  rcases add_zero_cases finite with zero | ⟨same, positive⟩
  · rw [zero]
    decide
  · rw [same, lt_zero_iff]
    rcases unpack_of_isFinite finite with ⟨zero, _⟩ | ⟨_, unpacked⟩
    · omega
    · rw [unpacked, unpackedSign]
      cases isNegative x <;> simp [UnpackedFloat.compare]

theorem isNegative_of_not_lt {x : Float} (finite : x.isFinite = true) (above : ¬ x + 0.0 < 0.0) :
    isNegative (x + 0.0) = false := by
  simpa using mt (lt_zero_iff_isNegative finite).mpr above

theorem add_zero_beq {x : Float} (finite : x.isFinite = true) : (x + 0.0 == x) = true := by
  change ((x + 0.0).toModel.unpack.compare x.toModel.unpack == some .eq) = true
  rcases unpack_of_isFinite finite with ⟨_, unpacked⟩ | ⟨positive, unpacked⟩
  · rw [add_zero_of_unpack_zero unpacked, unpacked, unpack_zero]
    rfl
  · rw [add_zero_of_unpack_finite unpacked, unpacked]
    cases unpackedSign x <;> simp [UnpackedFloat.compare]

end Worksheet
