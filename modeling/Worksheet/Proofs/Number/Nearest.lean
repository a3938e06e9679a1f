import Mathlib
import Worksheet.Number.Decimal

/-!
# The nearest floating-point number

A quotient that lies among the reals that round to a magnitude rounds to it. The bounds are given
in quarters of the last place of the mantissa, because the gap below a power of two is half as
wide as the one above.
-/

set_option autoImplicit false

namespace Worksheet

theorem roundDiv_cases (tie : Tie) (n d : Nat) :
    (2 * (n % d) < d ∧ roundDiv tie n d = n / d) ∨
      (2 * (n % d) = d ∧ roundDiv tie n d = tie.settle (n / d)) ∨
        d < 2 * (n % d) ∧ roundDiv tie n d = n / d + 1 := by
  unfold roundDiv
  rcases Nat.lt_trichotomy (2 * (n % d)) d with less | half | more
  · exact .inl ⟨less, by rw [Nat.compare_eq_lt.mpr less]⟩
  · exact .inr (.inl ⟨half, by rw [Nat.compare_eq_eq.mpr half]⟩)
  · exact .inr (.inr ⟨more, by rw [Nat.compare_eq_gt.mpr more]⟩)

theorem Tie.settle_eq_or (tie : Tie) (below : Nat) :
    tie.settle below = below ∨ tie.settle below = below + 1 := by
  cases tie with
  | toEven => by_cases even : below % 2 = 0 <;> simp [settle, even]
  | up => exact .inr rfl

theorem roundDiv_eq_or (tie : Tie) (n d : Nat) :
    roundDiv tie n d = n / d ∨ roundDiv tie n d = n / d + 1 := by
  rcases roundDiv_cases tie n d with ⟨_, rounds⟩ | ⟨_, rounds⟩ | ⟨_, rounds⟩
  · exact .inl rounds
  · rw [rounds]
    exact tie.settle_eq_or (n / d)
  · exact .inr rounds

theorem roundDiv_toEven_eq {n d m : Nat} (lower : 2 * m * d ≤ 2 * n + d)
    (upper : 2 * n ≤ (2 * m + 1) * d) (lowerTie : 2 * m * d = 2 * n + d → m % 2 = 0)
    (upperTie : 2 * n = (2 * m + 1) * d → m % 2 = 0) (positive : 0 < d) :
    roundDiv .toEven n d = m := by
  have whole := Nat.div_add_mod n d
  have small := Nat.mod_lt n positive
  have rounds := roundDiv_cases .toEven n d
  generalize n / d = q at whole rounds
  generalize n % d = r at whole small rounds
  subst whole
  have above : q ≤ m := by nlinarith
  have below : m ≤ q + 1 := by
    by_contra far
    nlinarith [Nat.mul_le_mul_right d (Nat.succ_le_of_lt (Nat.lt_of_not_le far))]
  obtain rfl | rfl : m = q ∨ m = q + 1 := by omega
  · rcases rounds with ⟨_, rounds⟩ | ⟨half, rounds⟩ | ⟨more, _⟩
    · exact rounds
    · have even := upperTie (by rw [← half]; ring)
      rw [rounds, Tie.settle, if_pos even]
    · nlinarith
  · rcases rounds with ⟨less, _⟩ | ⟨half, rounds⟩ | ⟨_, rounds⟩
    · nlinarith
    · have even := lowerTie (by rw [← half]; ring)
      rw [rounds, Tie.settle, if_neg (by omega)]
    · exact rounds

theorem zpow_eq_div {b : ℚ} (nonzero : b ≠ 0) (e : ℤ) :
    b ^ e = b ^ e.toNat / b ^ (-e).toNat := by
  rw [← zpow_natCast, ← zpow_natCast b (-e).toNat, ← zpow_sub₀ nonzero]
  congr 1
  omega

theorem div_lt_zpow_iff {n d : Nat} (positive : 0 < d) (e : ℤ) :
    (n : ℚ) / d < 2 ^ e ↔ n * Nat.pow 2 (-e).toNat < d * Nat.pow 2 e.toNat := by
  have denominator : (0 : ℚ) < d := by exact_mod_cast positive
  rw [zpow_eq_div two_ne_zero, div_lt_div_iff₀ denominator (by positivity),
    mul_comm ((2 : ℚ) ^ _)]
  exact_mod_cast Iff.rfl

theorem binaryExponent_spec {n d : Nat} (positiveN : 0 < n) (positiveD : 0 < d) :
    (2 : ℚ) ^ Magnitude.binaryExponent n d ≤ (n : ℚ) / d ∧
      (n : ℚ) / d < 2 ^ (Magnitude.binaryExponent n d + 1) := by
  have nLow : (2 : ℚ) ^ (n.log2 : ℤ) ≤ n := by
    exact_mod_cast Nat.log2_self_le positiveN.ne'
  have nHigh : (n : ℚ) < 2 ^ ((n.log2 : ℤ) + 1) := by
    exact_mod_cast Nat.lt_log2_self (n := n)
  have dLow : (2 : ℚ) ^ (d.log2 : ℤ) ≤ d := by
    exact_mod_cast Nat.log2_self_le positiveD.ne'
  have dHigh : (d : ℚ) < 2 ^ ((d.log2 : ℤ) + 1) := by
    exact_mod_cast Nat.lt_log2_self (n := d)
  have denominator : (0 : ℚ) < d := by exact_mod_cast positiveD
  have aboveLow : (2 : ℚ) ^ ((n.log2 : ℤ) - d.log2 - 1) ≤ n / d := by
    rw [le_div_iff₀ denominator]
    calc (2 : ℚ) ^ ((n.log2 : ℤ) - d.log2 - 1) * d
        ≤ 2 ^ ((n.log2 : ℤ) - d.log2 - 1) * 2 ^ ((d.log2 : ℤ) + 1) := by gcongr
      _ = 2 ^ (n.log2 : ℤ) := by rw [← zpow_add₀ two_ne_zero]; congr 1; ring
      _ ≤ n := nLow
  have belowHigh : (n : ℚ) / d < 2 ^ ((n.log2 : ℤ) - d.log2 + 1) := by
    rw [div_lt_iff₀ denominator]
    calc (n : ℚ) < 2 ^ ((n.log2 : ℤ) + 1) := nHigh
      _ = 2 ^ ((n.log2 : ℤ) - d.log2 + 1) * 2 ^ (d.log2 : ℤ) := by
          rw [← zpow_add₀ two_ne_zero]; congr 1; ring
      _ ≤ 2 ^ ((n.log2 : ℤ) - d.log2 + 1) * d := by gcongr
  unfold Magnitude.binaryExponent
  by_cases below : n * Nat.pow 2 (-((n.log2 : ℤ) - d.log2)).toNat <
      d * Nat.pow 2 ((n.log2 : ℤ) - d.log2).toNat
  · rw [if_pos below]
    refine ⟨aboveLow, ?_⟩
    rw [sub_add_cancel]
    exact (div_lt_zpow_iff positiveD _).mpr below
  · rw [if_neg below]
    exact ⟨not_lt.mp (mt (div_lt_zpow_iff positiveD _).mp below), belowHigh⟩

theorem roundDiv_scaled {n d m : Nat} {e : ℤ} (positive : 0 < d)
    (lower : (2 * m - 1) * (2 : ℚ) ^ e ≤ 2 * (n / d))
    (upper : 2 * ((n : ℚ) / d) ≤ (2 * m + 1) * 2 ^ e)
    (lowerTie : (2 * m - 1) * (2 : ℚ) ^ e = 2 * (n / d) → m % 2 = 0)
    (upperTie : 2 * ((n : ℚ) / d) = (2 * m + 1) * 2 ^ e → m % 2 = 0) :
    roundDiv .toEven (n * Nat.pow 2 (-e).toNat) (d * Nat.pow 2 e.toNat) = m := by
  have denominator : (d : ℚ) ≠ 0 := by exact_mod_cast positive.ne'
  -- both sides of the quotient share the factor `c`
  obtain ⟨c, hc⟩ : ∃ c : ℚ, c = d * 2 ^ (-e).toNat := ⟨_, rfl⟩
  have cPositive : 0 < c := by
    rw [hc]
    exact mul_pos (by exact_mod_cast positive) (by positivity)
  have numeratorEq : ((n * Nat.pow 2 (-e).toNat : Nat) : ℚ) = n / d * c := by
    rw [hc, ← mul_assoc, div_mul_cancel₀ _ denominator]
    exact_mod_cast rfl
  have denominatorEq : ((d * Nat.pow 2 e.toNat : Nat) : ℚ) = 2 ^ e * c := by
    rw [hc, zpow_eq_div two_ne_zero, mul_left_comm, div_mul_cancel₀ _ (by positivity)]
    exact_mod_cast rfl
  generalize n * Nat.pow 2 (-e).toNat = N at numeratorEq ⊢
  generalize hD : d * Nat.pow 2 e.toNat = D at denominatorEq ⊢
  have dPositive : 0 < D := hD ▸ Nat.mul_pos positive (Nat.pow_pos (by decide))
  refine roundDiv_toEven_eq ?_ ?_ (fun tie => lowerTie ?_) (fun tie => upperTie ?_) dPositive
  · have scaled := mul_le_mul_of_nonneg_right lower cPositive.le
    have target : (2 * m * D : ℚ) ≤ 2 * N + D := by
      rw [numeratorEq, denominatorEq]
      linarith
    exact_mod_cast target
  · have scaled := mul_le_mul_of_nonneg_right upper cPositive.le
    have target : (2 * N : ℚ) ≤ (2 * m + 1) * D := by
      rw [numeratorEq, denominatorEq]
      linarith
    exact_mod_cast target
  · have cast : (2 * m * D : ℚ) = 2 * N + D := by exact_mod_cast tie
    rw [numeratorEq, denominatorEq] at cast
    exact mul_right_cancel₀ cPositive.ne' (by linarith)
  · have cast : (2 * N : ℚ) = (2 * m + 1) * D := by exact_mod_cast tie
    rw [numeratorEq, denominatorEq] at cast
    exact mul_right_cancel₀ cPositive.ne' (by linarith)

namespace Magnitude

/-- The reals that round to a magnitude, in quarters of its last place. -/
structure Covers (x : Magnitude) (v : ℚ) : Prop where
  low : x.lowerQuarters * (2 : ℚ) ^ x.exponent ≤ 4 * v
  high : 4 * v ≤ x.upperQuarters * (2 : ℚ) ^ x.exponent
  open_of_odd : x.mantissa % 2 = 1 →
    x.lowerQuarters * (2 : ℚ) ^ x.exponent < 4 * v ∧
      4 * v < x.upperQuarters * (2 : ℚ) ^ x.exponent

structure Canonical (x : Magnitude) (bits : Nat) : Prop where
  mantissa_lt : x.mantissa < 2 ^ 53
  le_exponent : -1074 ≤ x.exponent
  normal_or_least : 2 ^ 52 ≤ x.mantissa ∨ x.exponent = -1074
  bits_eq : bits = (x.exponent + 1074).toNat * 2 ^ 52 + x.mantissa

theorem binade_eq : binade = 2 ^ 52 := rfl

theorem canonical_ofBits (bits : Nat) : Canonical (ofBits bits) bits := by
  unfold ofBits
  change Canonical (if bits / 2 ^ 52 = 0 then (⟨bits % 2 ^ 52, -1074⟩ : Magnitude)
    else ⟨2 ^ 52 + bits % 2 ^ 52, (bits / 2 ^ 52 : Nat) - 1075⟩) bits
  by_cases least : bits / 2 ^ 52 = 0
  · rw [if_pos least]
    constructor
    · change bits % 2 ^ 52 < 2 ^ 53
      omega
    · exact le_refl _
    · exact .inr rfl
    · change bits = (-1074 + 1074 : ℤ).toNat * 2 ^ 52 + bits % 2 ^ 52
      omega
  · rw [if_neg least]
    constructor
    · change 2 ^ 52 + bits % 2 ^ 52 < 2 ^ 53
      omega
    · change (-1074 : ℤ) ≤ (bits / 2 ^ 52 : Nat) - 1075
      omega
    · exact .inl (Nat.le_add_right _ _)
    · change bits = ((bits / 2 ^ 52 : Nat) - 1075 + 1074 : ℤ).toNat * 2 ^ 52 +
        (2 ^ 52 + bits % 2 ^ 52)
      omega

theorem two_mul_le_lowerQuarters (x : Magnitude) : 4 * x.mantissa - 2 ≤ x.lowerQuarters := by
  unfold lowerQuarters
  split <;> omega

theorem roundDiv_of_covers {x : Magnitude} {n d : Nat} (positive : 0 < d)
    (nonzero : 0 < x.mantissa) (covers : x.Covers (n / d)) :
    roundDiv .toEven (n * Nat.pow 2 (-x.exponent).toNat) (d * Nat.pow 2 x.exponent.toNat) =
      x.mantissa := by
  have unit : (0 : ℚ) < 2 ^ x.exponent := by positivity
  have quarters : (4 * x.mantissa - 2 : ℚ) ≤ x.lowerQuarters := by
    have natural : 4 * x.mantissa ≤ x.lowerQuarters + 2 := by
      have least := two_mul_le_lowerQuarters x
      omega
    have cast : (4 * x.mantissa : ℚ) ≤ x.lowerQuarters + 2 := by exact_mod_cast natural
    linarith
  have scaled := mul_le_mul_of_nonneg_right quarters unit.le
  have above : (x.upperQuarters : ℚ) = 4 * x.mantissa + 2 := by
    simp [upperQuarters]
  have low := covers.low
  have high := covers.high
  rw [above] at high
  refine roundDiv_scaled positive (by linarith) (by linarith) (fun tie => ?_) (fun tie => ?_)
  · by_contra odd
    have strict := (covers.open_of_odd (by omega)).1
    linarith
  · by_contra odd
    have strict := (covers.open_of_odd (by omega)).2
    rw [above] at strict
    linarith

theorem roundDiv_below_binade {n d : Nat} {e : ℤ} (positive : 0 < d)
    (low : (2 ^ 54 - 1 : ℚ) * 2 ^ e ≤ 4 * (n / d)) (high : (n : ℚ) / d < 2 ^ 52 * 2 ^ e) :
    roundDiv .toEven (n * Nat.pow 2 (-(e - 1)).toNat) (d * Nat.pow 2 (e - 1).toNat) = 2 ^ 53 := by
  have half : (2 : ℚ) ^ e = 2 ^ (e - 1) * 2 := by
    rw [← zpow_add_one₀ two_ne_zero, sub_add_cancel]
  rw [half] at low high
  refine roundDiv_scaled positive ?_ ?_ (fun _ => by decide) (fun _ => by decide)
  · push_cast
    linarith
  · push_cast
    have unit : (0 : ℚ) < 2 ^ (e - 1) := by positivity
    linarith

theorem Covers.pos {x : Magnitude} {v : ℚ} (covers : x.Covers v) (nonzero : 0 < x.mantissa) :
    0 < v := by
  have natural : 0 < x.lowerQuarters := by
    have bound := two_mul_le_lowerQuarters x
    omega
  have lowerPositive : (0 : ℚ) < x.lowerQuarters := by exact_mod_cast natural
  have product := mul_pos lowerPositive (by positivity : (0 : ℚ) < 2 ^ x.exponent)
  have low := covers.low
  linarith

theorem Covers.lt_next {x : Magnitude} {v : ℚ} (covers : x.Covers v)
    (small : x.mantissa < 2 ^ 53) : v < 2 ^ (x.exponent + 53) := by
  have unit : (0 : ℚ) < 2 ^ x.exponent := by positivity
  have natural : x.upperQuarters + 2 ≤ 2 ^ 55 := by
    simp only [upperQuarters]
    omega
  have upper : (x.upperQuarters + 2 : ℚ) ≤ 2 ^ 55 := by exact_mod_cast natural
  have scaled := mul_le_mul_of_nonneg_right upper unit.le
  have high := covers.high
  rw [zpow_add₀ two_ne_zero]
  norm_num at scaled ⊢
  linarith

/-- What rounds to a normal magnitude lies below the power of two in front of it only if the
magnitude is that power, and then by a quarter of its last place at most. -/
theorem Covers.foot {x : Magnitude} {v : ℚ} (covers : x.Covers v) (normal : 2 ^ 52 ≤ x.mantissa)
    (above : -1074 < x.exponent) (below : v < 2 ^ 52 * 2 ^ x.exponent) :
    x.mantissa = 2 ^ 52 ∧ (2 ^ 54 - 1 : ℚ) * 2 ^ x.exponent ≤ 4 * v := by
  have unit : (0 : ℚ) < 2 ^ x.exponent := by positivity
  have low := covers.low
  have isFoot : x.mantissa = 2 ^ 52 := by
    by_contra other
    have more : 2 ^ 54 + 2 ≤ x.lowerQuarters := by
      have bound := two_mul_le_lowerQuarters x
      omega
    have cast : (2 ^ 54 + 2 : ℚ) ≤ x.lowerQuarters := by exact_mod_cast more
    have scaled := mul_le_mul_of_nonneg_right cast unit.le
    norm_num at scaled below
    linarith
  have lower : x.lowerQuarters = 2 ^ 54 - 1 := by
    rw [lowerQuarters, if_pos ⟨isFoot, above⟩, isFoot]
    rfl
  have cast : (x.lowerQuarters : ℚ) = 2 ^ 54 - 1 := by
    rw [lower]
    norm_num
  exact ⟨isFoot, cast ▸ low⟩

/-- A quotient among the reals that round to a magnitude rounds to it. -/
theorem nearestBits_eq {n d bits : Nat} (positive : 0 < d) (nonzero : 0 < (ofBits bits).mantissa)
    (finite : bits < 2047 * 2 ^ 52) (covers : (ofBits bits).Covers (n / d)) :
    nearestBits n d = bits := by
  have canonical := canonical_ofBits bits
  generalize ofBits bits = x at nonzero covers canonical
  obtain ⟨small, least, normal, bitsEq⟩ := canonical
  have nPositive : 0 < n := by
    have quotientPositive := covers.pos nonzero
    rcases Nat.eq_zero_or_pos n with rfl | more
    · simp at quotientPositive
    · exact more
  obtain ⟨exponentLow, exponentHigh⟩ := binaryExponent_spec nPositive positive
  -- the quotient lies below the next power of two, so its exponent is at most that of the magnitude
  have atMost : binaryExponent n d < x.exponent + 53 :=
    (zpow_lt_zpow_iff_right₀ one_lt_two).mp (exponentLow.trans_lt (covers.lt_next small))
  unfold nearestBits
  rw [if_neg nPositive.ne']
  simp only []
  by_cases same : max (-1074) (binaryExponent n d - 52) = x.exponent
  · rw [same, roundDiv_of_covers positive nonzero covers, binade_eq, ← bitsEq]
    exact min_eq_left finite.le
  · -- else the magnitude is a power of two, and the quotient is rounded with the unit below it
    have above : -1074 < x.exponent := by omega
    have below : (n : ℚ) / d < 2 ^ 52 * 2 ^ x.exponent := by
      have exponents : binaryExponent n d + 1 ≤ 52 + x.exponent := by omega
      have power := exponentHigh.trans_le (zpow_le_zpow_right₀ one_le_two exponents)
      rwa [zpow_add₀ two_ne_zero] at power
    obtain ⟨isFoot, low⟩ := covers.foot (by omega) above below
    have atLeast : (2 : ℚ) ^ (x.exponent + 51) ≤ n / d := by
      rw [zpow_add₀ two_ne_zero]
      norm_num at low ⊢
      linarith [(by positivity : (0 : ℚ) < 2 ^ x.exponent)]
    have exponentLe : x.exponent + 51 < binaryExponent n d + 1 :=
      (zpow_lt_zpow_iff_right₀ one_lt_two).mp (atLeast.trans_lt exponentHigh)
    have finer : max (-1074) (binaryExponent n d - 52) = x.exponent - 1 := by omega
    rw [isFoot] at bitsEq
    have same : (x.exponent - 1 + 1074).toNat * 2 ^ 52 + 2 ^ 53 = bits := by omega
    rw [finer, roundDiv_below_binade positive low below, binade_eq, same]
    exact min_eq_left finite.le

end Magnitude

end Worksheet
