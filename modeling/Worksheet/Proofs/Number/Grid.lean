import Mathlib
import Worksheet.Proofs.Number.Nearest

/-!
# The grid of magnitudes

The bits of a magnitude number the magnitudes in increasing order, so they give a grid of rationals.
The grid is looked at without its end: from the bits of infinity on the exponents go on growing.
Each point has the unit of its exponent as its distance to the next one.
-/

set_option autoImplicit false

namespace Worksheet.Magnitude

def value (x : Magnitude) : ℚ :=
  x.mantissa * 2 ^ x.exponent

def point (bits : Nat) : ℚ :=
  (ofBits bits).value

/-- The rational is a point of the grid. -/
def OnGrid (v : ℚ) : Prop :=
  ∃ bits, point bits = v

theorem onGrid_point (bits : Nat) : OnGrid (point bits) :=
  ⟨bits, rfl⟩

theorem Canonical.eq_ofBits {x : Magnitude} {bits : Nat} (canonical : x.Canonical bits) :
    ofBits bits = x := by
  obtain ⟨small, least, normal, bitsEq⟩ := canonical
  obtain ⟨small', least', normal', bitsEq'⟩ := canonical_ofBits bits
  have exponents : (ofBits bits).exponent = x.exponent := by omega
  have mantissas : (ofBits bits).mantissa = x.mantissa := by
    rw [exponents] at bitsEq'
    omega
  generalize ofBits bits = y at exponents mantissas
  cases x
  cases y
  exact congrArg₂ Magnitude.mk mantissas exponents

theorem canonical_power {exponent : ℤ} (least : -1074 ≤ exponent) :
    Canonical ⟨2 ^ 52, exponent + 1⟩ ((exponent + 1074).toNat * 2 ^ 52 + 2 ^ 53) where
  mantissa_lt := Nat.pow_lt_pow_right one_lt_two (by norm_num)
  le_exponent := by
    change -1074 ≤ exponent + 1
    omega
  normal_or_least := .inl le_rfl
  bits_eq := by
    change _ = (exponent + 1 + 1074).toNat * 2 ^ 52 + 2 ^ 52
    omega

theorem point_eq {mantissa : Nat} {exponent : ℤ} (small : mantissa ≤ 2 ^ 53)
    (least : -1074 ≤ exponent) (normal : 2 ^ 52 ≤ mantissa ∨ exponent = -1074) :
    point ((exponent + 1074).toNat * 2 ^ 52 + mantissa) = mantissa * 2 ^ exponent := by
  rcases small.lt_or_eq with less | rfl
  · have canonical : Canonical ⟨mantissa, exponent⟩
        ((exponent + 1074).toNat * 2 ^ 52 + mantissa) := ⟨less, least, normal, rfl⟩
    rw [point, canonical.eq_ofBits]
    rfl
  · rw [point, (canonical_power least).eq_ofBits, value, zpow_add_one₀ two_ne_zero]
    norm_num
    ring

theorem onGrid_of_le {mantissa : Nat} {exponent : ℤ} (small : mantissa ≤ 2 ^ 53)
    (least : -1074 ≤ exponent) : OnGrid (mantissa * 2 ^ exponent) := by
  obtain ⟨steps, rfl⟩ : ∃ steps : Nat, exponent = steps - 1074 :=
    ⟨(exponent + 1074).toNat, by omega⟩
  clear least
  induction steps generalizing mantissa with
  | zero => exact ⟨_, point_eq small (by norm_num) (.inr (by norm_num))⟩
  | succ steps ih =>
      by_cases normal : 2 ^ 52 ≤ mantissa
      · exact ⟨_, point_eq small (by omega) (.inl normal)⟩
      · have doubled := @ih (2 * mantissa) (by omega)
        have same : ((2 * mantissa : Nat) : ℚ) * 2 ^ ((steps : ℤ) - 1074) =
            mantissa * 2 ^ (((steps + 1 : Nat) : ℤ) - 1074) := by
          have exponents : ((steps + 1 : Nat) : ℤ) - 1074 = (steps : ℤ) - 1074 + 1 := by
            push_cast
            ring
          rw [exponents, zpow_add_one₀ two_ne_zero]
          push_cast
          ring
        rwa [same] at doubled

theorem onGrid_natCast {n : Nat} (small : n ≤ 2 ^ 53) : OnGrid n := by
  simpa using @onGrid_of_le n 0 small (by norm_num)

theorem onGrid_zero : OnGrid 0 := by
  simpa using @onGrid_natCast 0 (by norm_num)

theorem OnGrid.double {v : ℚ} (onGrid : OnGrid v) : OnGrid (2 * v) := by
  obtain ⟨bits, rfl⟩ := onGrid
  obtain ⟨small, least, _, _⟩ := canonical_ofBits bits
  have doubled := @onGrid_of_le _ ((ofBits bits).exponent + 1) small.le (by omega)
  rw [zpow_add_one₀ two_ne_zero] at doubled
  rw [point, value]
  convert doubled using 1
  ring

theorem OnGrid.exists_natCast {v : ℚ} (onGrid : OnGrid v) (large : 2 ^ 52 ≤ v) :
    ∃ k : Nat, (k : ℚ) = v := by
  obtain ⟨bits, rfl⟩ := onGrid
  obtain ⟨small, _, _, _⟩ := canonical_ofBits bits
  rw [point, value] at large ⊢
  have whole : 0 ≤ (ofBits bits).exponent := by
    by_contra below
    have cast : ((ofBits bits).mantissa : ℚ) < 2 ^ 53 := by exact_mod_cast small
    have unit : (2 : ℚ) ^ (ofBits bits).exponent ≤ 2 ^ (-1 : ℤ) :=
      zpow_le_zpow_right₀ one_le_two (by omega)
    have product := mul_lt_mul cast unit (by positivity) (by norm_num)
    norm_num at product large
    linarith
  obtain ⟨n, exponent⟩ := Int.eq_ofNat_of_zero_le whole
  refine ⟨(ofBits bits).mantissa * 2 ^ n, ?_⟩
  rw [exponent, zpow_natCast]
  push_cast
  rfl

theorem point_nonneg (bits : Nat) : 0 ≤ point bits :=
  mul_nonneg (Nat.cast_nonneg _) (zpow_nonneg (by norm_num) _)

theorem point_succ (bits : Nat) : point (bits + 1) = point bits + 2 ^ (ofBits bits).exponent := by
  obtain ⟨small, least, normal, bitsEq⟩ := canonical_ofBits bits
  have next : bits + 1 =
      ((ofBits bits).exponent + 1074).toNat * 2 ^ 52 + ((ofBits bits).mantissa + 1) := by omega
  rw [point, next, ← point, point_eq small least (normal.imp_left (by omega)), point, value]
  push_cast
  ring

theorem point_strictMono : StrictMono point :=
  strictMono_nat_of_lt_succ fun bits => by
    rw [point_succ]
    exact lt_add_of_pos_right _ (zpow_pos two_pos _)

theorem point_injective : Function.Injective point :=
  point_strictMono.injective

theorem point_zero : point 0 = 0 := by
  norm_num [point, value, ofBits, binade]

theorem OnGrid.nonneg {v : ℚ} (onGrid : OnGrid v) : 0 ≤ v := by
  obtain ⟨bits, rfl⟩ := onGrid
  exact point_nonneg bits

theorem Canonical.compare_eq {x y : Magnitude} {bits others : Nat} (canonical : x.Canonical bits)
    (other : y.Canonical others) :
    (compare x.exponent y.exponent).then (compare x.mantissa y.mantissa) =
      compare bits others := by
  obtain ⟨small, least, normal, bitsEq⟩ := canonical
  obtain ⟨small', least', normal', bitsEq'⟩ := other
  rcases lt_trichotomy x.exponent y.exponent with less | same | more
  · rw [compare_lt_iff_lt.mpr less, compare_lt_iff_lt.mpr (by omega : bits < others)]
    rfl
  · rw [compare_eq_iff_eq.mpr same, Ordering.then]
    rcases lt_trichotomy x.mantissa y.mantissa with less | same | more
    · rw [compare_lt_iff_lt.mpr less, compare_lt_iff_lt.mpr (by omega : bits < others)]
    · rw [compare_eq_iff_eq.mpr same, compare_eq_iff_eq.mpr (by omega : bits = others)]
    · rw [compare_gt_iff_gt.mpr more, compare_gt_iff_gt.mpr (by omega : others < bits)]
  · rw [compare_gt_iff_gt.mpr more, compare_gt_iff_gt.mpr (by omega : others < bits)]
    rfl

theorem two_zpow_eq_mul (k : ℤ) : (2 : ℚ) ^ k = 2 ^ 53 * 2 ^ (k - 53) := by
  rw [← zpow_natCast, ← zpow_add₀ two_ne_zero]
  congr 1
  push_cast
  ring

theorem two_zpow_sub_eq_double (k : ℤ) : (2 : ℚ) ^ (k - 52) = 2 * 2 ^ (k - 53) := by
  rw [← zpow_one_add₀ two_ne_zero]
  congr 1
  ring

theorem onGrid_before_power {k : ℤ} (normal : -1021 ≤ k) : OnGrid (2 ^ k - 2 ^ (k - 53)) := by
  have point := @onGrid_of_le (2 ^ 53 - 1) (k - 53) (by norm_num) (by omega)
  have same : ((2 ^ 53 - 1 : Nat) : ℚ) * 2 ^ (k - 53) = 2 ^ k - 2 ^ (k - 53) := by
    rw [two_zpow_eq_mul k]
    norm_num
    ring
  rwa [same] at point

theorem onGrid_after_power {k : ℤ} (normal : -1021 ≤ k) : OnGrid (2 ^ k + 2 ^ (k - 52)) := by
  have point := @onGrid_of_le (2 ^ 52 + 1) (k - 52) (by norm_num) (by omega)
  have same : ((2 ^ 52 + 1 : Nat) : ℚ) * 2 ^ (k - 52) = 2 ^ k + 2 ^ (k - 52) := by
    rw [two_zpow_eq_mul k, two_zpow_sub_eq_double]
    push_cast
    ring
  rwa [same] at point

theorem eq_power_of_between {v : ℚ} {k : ℤ} (onGrid : OnGrid v) (normal : -1021 ≤ k)
    (above : 2 ^ k - 2 ^ (k - 53) < v) (below : v < 2 ^ k + 2 ^ (k - 52)) : v = 2 ^ k := by
  obtain ⟨bits, rfl⟩ := onGrid
  obtain ⟨e, rfl⟩ : ∃ e : ℤ, k = e + 53 := ⟨k - 53, by ring⟩
  have least : -1074 ≤ e := by omega
  have unit := two_zpow_eq_mul (e + 53)
  have exponent : e + 53 - 52 = e + 1 := by ring
  rw [add_sub_cancel_right] at unit above
  rw [unit] at above
  rw [exponent, unit] at below
  rw [unit]
  have power : point ((e + 1074).toNat * 2 ^ 52 + 2 ^ 53) = 2 ^ 53 * 2 ^ e := by
    rw [point_eq le_rfl least (.inl (by norm_num))]
    norm_cast
  have before : point ((e + 1074).toNat * 2 ^ 52 + (2 ^ 53 - 1)) = (2 ^ 53 - 1) * 2 ^ e := by
    rw [point_eq (by norm_num) least (.inl (by norm_num))]
    norm_num
  have after : point ((e + 1074).toNat * 2 ^ 52 + 2 ^ 53 + 1) = 2 ^ 53 * 2 ^ e + 2 ^ (e + 1) := by
    rw [point_succ, power, (canonical_power least).eq_ofBits]
  have notBefore : (e + 1074).toNat * 2 ^ 52 + (2 ^ 53 - 1) < bits := by
    rw [← point_strictMono.lt_iff_lt, before]
    linarith
  have notAfter : bits < (e + 1074).toNat * 2 ^ 52 + 2 ^ 53 + 1 := by
    rw [← point_strictMono.lt_iff_lt, after]
    exact below
  have same : bits = (e + 1074).toNat * 2 ^ 52 + 2 ^ 53 := by omega
  rw [same, power]

end Worksheet.Magnitude
