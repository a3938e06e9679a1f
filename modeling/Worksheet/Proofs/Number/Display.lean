import Mathlib
import Worksheet.Proofs.Number.FixedPoint
import Worksheet.Proofs.Number.Order
import Worksheet.Proofs.Number.Places

/-!
# The form in which numbers are shown

A finite number is shown as the canonical text of the decimal with ten places that is nearest to it.
So the zeros and the point that are left out carry nothing, and a whole number is shown as it is, of
whatever size. Printing whole numbers below `10 ^ 15` without places, and all others with ten places
and then trimming the text, shows the same.
-/

set_option autoImplicit false

namespace Worksheet

/-- The decimal with a number of places that is nearest to a rational, of two the one with the even
last digit. -/
def IsNearestDecimal (places : Nat) (q decimal : ℚ) : Prop :=
  ∃ k : ℤ, decimal = k / 10 ^ places ∧ |q * 10 ^ places - k| ≤ 1 / 2 ∧
    (|q * 10 ^ places - k| = 1 / 2 → k % 2 = 0)

namespace IsNearestDecimal

variable {places : Nat} {q decimal other : ℚ}

theorem unique (first : IsNearestDecimal places q decimal)
    (second : IsNearestDecimal places q other) : decimal = other := by
  obtain ⟨k, rfl, near, even⟩ := first
  obtain ⟨l, rfl, near', even'⟩ := second
  obtain ⟨low, high⟩ := abs_le.mp near
  obtain ⟨low', high'⟩ := abs_le.mp near'
  have same : k = l := by
    rcases lt_trichotomy k l with less | same | more
    · have cast : (k : ℚ) + 1 ≤ l := by exact_mod_cast less
      have tie := even (by rw [abs_of_nonneg] <;> linarith)
      have tie' := even' (by rw [abs_of_nonpos] <;> linarith)
      have next : (l : ℚ) ≤ k + 1 := by linarith
      have next' : l ≤ k + 1 := by exact_mod_cast next
      omega
    · exact same
    · have cast : (l : ℚ) + 1 ≤ k := by exact_mod_cast more
      have tie := even (by rw [abs_of_nonpos] <;> linarith)
      have tie' := even' (by rw [abs_of_nonneg] <;> linarith)
      have next : (k : ℚ) ≤ l + 1 := by linarith
      have next' : k ≤ l + 1 := by exact_mod_cast next
      omega
  rw [same]

theorem intCast (places : Nat) (n : ℤ) : IsNearestDecimal places n n := by
  refine ⟨n * 10 ^ places, ?_, ?_, ?_⟩
  · push_cast
    field_simp
  · push_cast
    norm_num
  · push_cast
    norm_num

end IsNearestDecimal

theorem IsHalfEven.isNearestDecimal {digits places : Nat} {v : ℚ} (negative : Bool)
    (isHalfEven : IsHalfEven digits (v * 10 ^ places)) :
    IsNearestDecimal places (if negative then -v else v)
      (if negative then -(digits / 10 ^ places) else digits / 10 ^ places) := by
  have near := isHalfEven.abs_sub_le
  have even (tie : |(digits : ℚ) - v * 10 ^ places| = 1 / 2) : digits % 2 = 0 := by
    rcases abs_choice ((digits : ℚ) - v * 10 ^ places) with same | same
    · exact isHalfEven.even_of_low (by linarith)
    · exact isHalfEven.even_of_high (by linarith)
  cases negative with
  | false =>
      have distance : |v * 10 ^ places - ((digits : ℤ) : ℚ)| = |(digits : ℚ) - v * 10 ^ places| :=
        abs_sub_comm _ _
      refine ⟨digits, rfl, distance ▸ near, fun tie => ?_⟩
      have natural := even (distance ▸ tie)
      omega
  | true =>
      have distance : |-v * 10 ^ places - ((-digits : ℤ) : ℚ)| =
          |(digits : ℚ) - v * 10 ^ places| := by
        push_cast
        congr 1
        ring
      refine ⟨-digits, ?_, distance ▸ near, fun tie => ?_⟩
      · push_cast
        exact (neg_div _ _).symm
      · have natural := even (distance ▸ tie)
        omega

/-- A number is printed with a number of places, and with its sign even if nothing but zeros is
left. -/
def printFixed (places : Nat) (x : Float) : List Char :=
  signed (isNegative x) ((Magnitude.ofFloat x).toPlaces places).positional

theorem isHalfEven_toPlaces (places : Nat) (x : Float) :
    IsHalfEven ((Magnitude.ofFloat x).toPlaces places).digits (size x * 10 ^ places) := by
  have digits := (Magnitude.ofFloat x).isHalfEven_digitsAt (-places)
  rw [zpow_neg, zpow_natCast, div_inv_eq_mul] at digits
  exact digits

theorem exists_printFixed (places : Nat) (x : Float) :
    ∃ form : FixedPoint, form.negative = isNegative x ∧ form.fraction.length = places ∧
      form.chars = printFixed places x ∧ IsNearestDecimal places (rational x) form.value := by
  obtain ⟨form, sign, long, digits, text⟩ := FixedPoint.exists_positional (isNegative x)
    ((Magnitude.ofFloat x).toPlaces places).digits places
  refine ⟨form, sign, long, text, ?_⟩
  rw [FixedPoint.value, sign, FixedPoint.size_of_digits long digits]
  exact (isHalfEven_toPlaces places x).isNearestDecimal (isNegative x)

theorem exists_dropZeros (limit : Nat) (d : Decimal) :
    ∃ count ≤ limit, (d.dropZeros limit).exponent = d.exponent + count ∧
      (count = limit ∨ (d.dropZeros limit).digits % 10 ≠ 0) := by
  induction limit generalizing d with
  | zero => exact ⟨0, le_rfl, (add_zero _).symm, .inl rfl⟩
  | succ limit ih =>
      unfold Decimal.dropZeros
      by_cases idle : d.digits % 10 = 0
      · obtain ⟨count, le, exponent, stops⟩ := ih ⟨d.digits / 10, d.exponent + 1⟩
        rw [if_pos idle]
        refine ⟨count + 1, by omega, ?_, stops.imp_left (congrArg (· + 1))⟩
        rw [exponent]
        push_cast
        ring
      · rw [if_neg idle]
        exact ⟨0, Nat.zero_le _, (add_zero _).symm, .inr idle⟩

theorem Decimal.value_places (digits places : Nat) :
    Decimal.value ⟨digits, -places⟩ = digits / 10 ^ places := by
  rw [Decimal.value, div_eq_mul_inv, zpow_neg, zpow_natCast]

theorem exists_places_dropZeros (places : Nat) (x : Magnitude) :
    ∃ digits rest : Nat, (x.toPlaces places).dropZeros places = ⟨digits, -rest⟩ ∧ rest ≤ places ∧
      (digits / 10 ^ rest : ℚ) = (x.toPlaces places).digits / 10 ^ places ∧
      (rest = 0 ∨ digits % 10 ≠ 0) := by
  obtain ⟨count, le, exponent, stops⟩ := exists_dropZeros places (x.toPlaces places)
  have start : (x.toPlaces places).exponent = -places := rfl
  have kept : ((x.toPlaces places).dropZeros places).value =
      (x.toPlaces places).digits / 10 ^ places :=
    (Decimal.value_dropZeros places _).trans (Decimal.value_places _ _)
  generalize (x.toPlaces places).dropZeros places = d at exponent stops kept
  obtain ⟨digits, e⟩ := d
  obtain rfl : e = -((places - count : Nat) : ℤ) := by
    change e = (x.toPlaces places).exponent + count at exponent
    omega
  rw [Decimal.value_places] at kept
  exact ⟨digits, places - count, rfl, Nat.sub_le _ _, kept, stops.imp_left (by omega)⟩

/-- A rounded number without idle zeros, and without a sign if nothing but zeros is left, has the
canonical text of the nearest decimal. -/
theorem exists_dropZeros_toPlaces (places : Nat) (x : Float) :
    ∃ form : FixedPoint, form.IsCanonical ∧ form.fraction.length ≤ places ∧
      form.chars = signed (isNegative x && ((Magnitude.ofFloat x).toPlaces places).digits != 0)
        (((Magnitude.ofFloat x).toPlaces places).dropZeros places).positional ∧
      IsNearestDecimal places (rational x) form.value := by
  have nearest := (isHalfEven_toPlaces places x).isNearestDecimal (isNegative x)
  obtain ⟨reduced, rest, dropped, le, kept, stops⟩ :=
    exists_places_dropZeros places (Magnitude.ofFloat x)
  rw [dropped]
  generalize ((Magnitude.ofFloat x).toPlaces places).digits = digits at kept nearest
  obtain ⟨form, sign, long, same, text⟩ :=
    FixedPoint.exists_positional (isNegative x && digits != 0) reduced rest
  have size : form.size = digits / 10 ^ places := (FixedPoint.size_of_digits long same).trans kept
  refine ⟨form, ⟨FixedPoint.getLast?_of_digits long same stops, ?_⟩, long.trans_le le, text, ?_⟩
  · intro negative
    by_contra bare
    rw [not_or, not_not, not_not] at bare
    rw [sign, Bool.and_eq_true, bne_iff_ne] at negative
    have nonzero : (digits : ℚ) ≠ 0 := by exact_mod_cast negative.2
    have zero := FixedPoint.size_of_zero bare.1 bare.2
    rw [size] at zero
    exact absurd zero (div_ne_zero nonzero (by positivity))
  · rw [FixedPoint.value_of_sign sign size]
    exact nearest

theorem showNumber_of_isFinite {x : Float} (finite : x.isFinite = true) :
    showNumber x = signed
      (isNegative x && ((Magnitude.ofFloat x).toPlaces shownPlaces).digits != 0)
      (((Magnitude.ofFloat x).toPlaces shownPlaces).dropZeros shownPlaces).positional := by
  unfold showNumber
  rw [isNaN_of_isFinite finite, isInf_of_isFinite finite, if_neg Bool.false_ne_true,
    if_neg Bool.false_ne_true]

/-- A number is printed without places if it is whole and below `10 ^ 15`, and else with ten places
from which the idle zeros and a bare point are trimmed, and the sign of a zero. -/
def printNumber (x : Float) : List Char :=
  if x.isNaN then "#NAN!".toList
  else if x.isInf then "#INF!".toList
  else if (Magnitude.ofFloat x).isWhole ∧ x.abs < 1e15 then printFixed 0 (x + 0.0)
  else
    let text := ((printFixed shownPlaces x).rdropWhile (· == '0')).rdropWhile (· == '.')
    if text = ['-', '0'] then ['0'] else text

theorem exists_int_of_isWhole {x : Float} (whole : (Magnitude.ofFloat x).isWhole = true) :
    ∃ n : ℤ, rational x = n := by
  obtain ⟨n, numerator⟩ := Nat.dvd_of_mod_eq_zero (beq_iff_eq.mp whole)
  have positive : ((Magnitude.ofFloat x).denominator : ℚ) ≠ 0 := by
    exact_mod_cast (Magnitude.ofFloat x).denominator_pos.ne'
  have size : size x = n := by
    change (Magnitude.ofFloat x).value = n
    rw [← Magnitude.numerator_div_denominator, numerator, Nat.cast_mul,
      mul_div_cancel_left₀ _ positive]
  rw [rational, size]
  cases isNegative x with
  | false => exact ⟨n, rfl⟩
  | true => exact ⟨-n, by push_cast; rfl⟩

section

variable {x : Float} (finite : x.isFinite = true)
include finite

theorem rational_add_zero : rational (x + 0.0) = rational x :=
  (beq_iff_rational (isFinite_add_zero finite) finite).mp (add_zero_beq finite)

theorem rational_lt_of_isNegative (negative : isNegative (x + 0.0) = true) : rational x < 0 := by
  have below := (lt_zero_iff_isNegative finite).mpr negative
  rw [lt_iff_rational (isFinite_add_zero finite) (by decide), rational_add_zero finite] at below
  have zero : rational 0.0 = 0 :=
    (rational_eq_zero_iff _).mpr ((size_eq_zero_iff _).mpr (by decide))
  rwa [zero] at below

theorem exists_printFixed_whole (whole : (Magnitude.ofFloat x).isWhole = true) :
    ∃ form : FixedPoint, form.IsCanonical ∧ form.chars = printFixed 0 (x + 0.0) ∧
      form.value = rational x := by
  obtain ⟨n, same⟩ := exists_int_of_isWhole whole
  obtain ⟨form, sign, long, text, nearest⟩ := exists_printFixed 0 (x + 0.0)
  rw [rational_add_zero finite, same] at nearest
  have value : form.value = rational x := same ▸ nearest.unique (.intCast 0 n)
  have bare : form.fraction = [] := List.length_eq_zero_iff.mp long
  refine ⟨form, ⟨by simp [bare], fun negative => .inl fun zero => ?_⟩, text, value⟩
  have none := FixedPoint.size_of_zero zero bare
  have below := rational_lt_of_isNegative finite (sign ▸ negative)
  have positive := abs_pos.mpr (value ▸ below.ne)
  rw [FixedPoint.abs_value, none] at positive
  exact lt_irrefl _ positive

theorem showNumber_eq_printNumber : showNumber x = printNumber x := by
  obtain ⟨shown, canonical, _, text, nearest⟩ := exists_dropZeros_toPlaces shownPlaces x
  rw [← showNumber_of_isFinite finite] at text
  unfold printNumber
  rw [isNaN_of_isFinite finite, isInf_of_isFinite finite, if_neg Bool.false_ne_true,
    if_neg Bool.false_ne_true]
  split
  · rename_i whole
    obtain ⟨printed, canonical', text', value⟩ := exists_printFixed_whole finite whole.1
    obtain ⟨n, same⟩ := exists_int_of_isWhole whole.1
    rw [same] at nearest value
    have values : shown.value = printed.value := (nearest.unique (.intCast _ n)).trans value.symm
    rw [← text, ← text', canonical.eq_of_value canonical' values]
  · obtain ⟨printed, _, long, text', nearest'⟩ := exists_printFixed shownPlaces x
    have fractional : printed.fraction ≠ [] := List.ne_nil_of_length_eq_add_one long
    have values : shown.value = printed.settled.value :=
      (nearest.unique nearest').trans printed.value_settled.symm
    simp only [← text', FixedPoint.rdropWhile_chars fractional]
    rw [← text, canonical.eq_of_value printed.isCanonical_settled values, FixedPoint.chars_settled]

end

/-- A finite number is shown as the one canonical text of the decimal with ten places that is
nearest to it, which is the number itself if it is whole. Printing whole numbers apart and trimming
the text of all others shows the same. -/
theorem showNumber_canonical {x : Float} (finite : x.isFinite = true) :
    (∃ form : FixedPoint, form.chars = showNumber x ∧ form.IsCanonical ∧
      form.fraction.length ≤ 10 ∧ IsNearestDecimal 10 (rational x) form.value ∧
      (∀ n : ℤ, rational x = n → form.value = n) ∧
      ∀ other : FixedPoint, other.IsCanonical → other.value = form.value → other = form) ∧
    showNumber x = printNumber x := by
  obtain ⟨form, canonical, short, text, nearest⟩ := exists_dropZeros_toPlaces shownPlaces x
  rw [← showNumber_of_isFinite finite] at text
  refine ⟨⟨form, text, canonical, short, nearest, fun n whole => ?_, fun other canonical' same =>
    canonical'.eq_of_value canonical same⟩, showNumber_eq_printNumber finite⟩
  rw [whole] at nearest
  exact nearest.unique (.intCast _ n)

/-- A whole number beyond `10 ^ 15` keeps the zeros at its end. -/
theorem showNumber_canonical_of_large :
    (1.5e21 : Float).isFinite = true ∧ showNumber 1.5e21 = "1500000000000000000000".toList ∧
    (∃ form : FixedPoint, form.chars = showNumber 1.5e21 ∧ form.IsCanonical ∧
      form.fraction.length ≤ 10 ∧ IsNearestDecimal 10 (rational 1.5e21) form.value ∧
      (∀ n : ℤ, rational 1.5e21 = n → form.value = n) ∧
      ∀ other : FixedPoint, other.IsCanonical → other.value = form.value → other = form) ∧
    showNumber 1.5e21 = printNumber 1.5e21 :=
  ⟨by decide +kernel, by decide +kernel, showNumber_canonical (by decide +kernel)⟩

/-- A tie of the tenth place goes to the even digit, and a negative number may be shown as zero. -/
example : showNumber (1.0 / 2048.0) = "0.0004882812".toList ∧ showNumber (-1e-12) = "0".toList := by
  decide +kernel

end Worksheet
