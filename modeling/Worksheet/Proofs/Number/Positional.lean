import Mathlib
import Worksheet.Proofs.Number.ReadBack

/-!
# Digits around a point

Digits in front of a point and behind it stand for a rational. Without a superfluous zero at either
end there is only one way to write a rational like this, and the digits of a decimal are split at
the point without changing what they stand for.
-/

set_option autoImplicit false

namespace Worksheet

theorem digitChar_of_isDigit {c : Char} (digit : c.isDigit = true) :
    Nat.digitChar (c.toNat - '0'.toNat) = c := by
  simp only [Char.isDigit, Bool.and_eq_true, decide_eq_true_eq] at digit
  have low : 48 ≤ c.toNat := digit.1
  have high : c.toNat ≤ 57 := digit.2
  change Nat.digitChar (c.toNat - 48) = c
  apply Char.toNat_inj.mp
  rw [Nat.toNat_digitChar_of_lt_ten (by omega)]
  omega

theorem digit_lt {c : Char} (digit : c.isDigit = true) : c.toNat - '0'.toNat < 10 := by
  simp only [Char.isDigit, Bool.and_eq_true, decide_eq_true_eq] at digit
  have high : c.toNat ≤ 57 := digit.2
  change c.toNat - 48 < 10
  omega

theorem ofDigitChars_concat (text : List Char) (c : Char) :
    Nat.ofDigitChars 10 (text ++ [c]) 0 =
      10 * Nat.ofDigitChars 10 text 0 + (c.toNat - '0'.toNat) := by
  rw [Nat.ofDigitChars_append, Nat.ofDigitChars_cons, Nat.ofDigitChars_nil]

theorem ofDigitChars_lt {text : List Char} (digits : ∀ c ∈ text, c.isDigit = true) :
    Nat.ofDigitChars 10 text 0 < 10 ^ text.length := by
  induction text using List.reverseRecOn with
  | nil => simp
  | append_singleton text c ih =>
      have front := ih fun d member => digits d (List.mem_append_left _ member)
      have last := digit_lt (digits c (by simp))
      rw [ofDigitChars_concat, List.length_append, List.length_singleton, pow_succ]
      omega

theorem ofDigitChars_mod_ten {text : List Char} (digits : ∀ c ∈ text, c.isDigit = true)
    (nonempty : text ≠ []) :
    Nat.ofDigitChars 10 text 0 % 10 = 0 ↔ text.getLast? = some '0' := by
  obtain ⟨front, c, rfl⟩ := (List.eq_nil_or_concat' text).resolve_left nonempty
  have digit := digits c (by simp)
  have small := digit_lt digit
  rw [ofDigitChars_concat, List.getLast?_concat, Option.some_inj]
  constructor
  · intro multiple
    have zero : c.toNat - '0'.toNat = 0 := by omega
    rw [← digitChar_of_isDigit digit, zero]
    rfl
  · rintro rfl
    change (10 * _ + 0) % 10 = 0
    omega

theorem digitChars_of_head {n : Nat} (zero : (digitChars n).head? = some '0') :
    digitChars n = ['0'] := by
  induction n using Nat.strong_induction_on with
  | h n ih =>
      rw [digitChars, Nat.toDigits_eq_if (by decide)] at zero ⊢
      by_cases single : n < 10
      · rw [if_pos single] at zero ⊢
        exact congrArg (fun c => [c]) (Option.some.inj zero)
      · rw [if_neg single, List.head?_append_of_ne_nil _ Nat.toDigits_ne_nil] at zero
        have front := ih (n / 10) (by omega) zero
        have more : Nat.ofDigitChars 10 (digitChars (n / 10)) 0 = 0 := by
          rw [front]
          rfl
        rw [ofDigitChars_digitChars] at more
        omega

/-- Digits without a superfluous zero in front are the digits of the natural that they come to. -/
theorem digitChars_ofDigitChars {text : List Char} (digits : ∀ c ∈ text, c.isDigit = true)
    (nonempty : text ≠ []) (noIdleZero : text.head? = some '0' → text = ['0']) :
    digitChars (Nat.ofDigitChars 10 text 0) = text := by
  induction text using List.reverseRecOn with
  | nil => exact absurd rfl nonempty
  | append_singleton front c ih =>
      have digit := digits c (by simp)
      have small := digit_lt digit
      rw [ofDigitChars_concat, digitChars, Nat.toDigits_eq_if (by decide)]
      rcases front.eq_nil_or_concat' with rfl | ⟨init, d, same⟩
      · have single : 10 * Nat.ofDigitChars 10 [] 0 + (c.toNat - '0'.toNat) = c.toNat - '0'.toNat :=
          Nat.zero_add _
        rw [single, if_pos small, digitChar_of_isDigit digit, List.nil_append]
      · have frontNonempty : front ≠ [] := by simp [same]
        have frontZero : front.head? ≠ some '0' := by
          intro zero
          have whole := noIdleZero (by rwa [List.head?_append_of_ne_nil _ frontNonempty])
          have length := congrArg List.length whole
          simp [same] at length
        have front' := ih (fun e member => digits e (List.mem_append_left _ member)) frontNonempty
          fun zero => absurd zero frontZero
        have positive : Nat.ofDigitChars 10 front 0 ≠ 0 := by
          intro none
          rw [none] at front'
          exact frontZero (by rw [← front']; rfl)
        have quotient : (10 * Nat.ofDigitChars 10 front 0 + (c.toNat - '0'.toNat)) / 10 =
            Nat.ofDigitChars 10 front 0 := by omega
        have remainder : (10 * Nat.ofDigitChars 10 front 0 + (c.toNat - '0'.toNat)) % 10 =
            c.toNat - '0'.toNat := by omega
        rw [if_neg (by omega), quotient, remainder, digitChar_of_isDigit digit]
        exact congrArg (· ++ [c]) front'

theorem eq_of_ofDigitChars {first second : List Char} (digits : ∀ c ∈ first, c.isDigit = true)
    (digits' : ∀ c ∈ second, c.isDigit = true) (length : first.length = second.length)
    (same : Nat.ofDigitChars 10 first 0 = Nat.ofDigitChars 10 second 0) : first = second := by
  -- A one in front makes them digits of a natural.
  have leading {text : List Char} (digits : ∀ c ∈ text, c.isDigit = true) :
      digitChars (Nat.ofDigitChars 10 ('1' :: text) 0) = '1' :: text :=
    digitChars_ofDigitChars (by simpa using digits) (List.cons_ne_nil _ _) (by simp)
  have value (text : List Char) : Nat.ofDigitChars 10 ('1' :: text) 0 =
      10 ^ text.length + Nat.ofDigitChars 10 text 0 := by
    rw [Nat.ofDigitChars_cons, Nat.ofDigitChars_eq_ofDigitChars_zero]
    exact congrArg (· + _) (mul_one _)
  refine (List.cons.inj (?_ : '1' :: first = '1' :: second)).2
  rw [← leading digits, ← leading digits', value, value, length, same]

def fractionValue (fraction : List Char) : ℚ :=
  Nat.ofDigitChars 10 fraction 0 / 10 ^ fraction.length

theorem fractionValue_nonneg (fraction : List Char) : 0 ≤ fractionValue fraction := by
  unfold fractionValue
  positivity

theorem fractionValue_lt_one {fraction : List Char} (digits : ∀ c ∈ fraction, c.isDigit = true) :
    fractionValue fraction < 1 := by
  rw [fractionValue, div_lt_one (by positivity)]
  exact_mod_cast ofDigitChars_lt digits

theorem fractionValue_append_zeros (fraction : List Char) (count : Nat) :
    fractionValue (fraction ++ List.replicate count '0') = fractionValue fraction := by
  rw [fractionValue, Nat.ofDigitChars_append, Nat.ofDigitChars_replicate_zero, List.length_append,
    List.length_replicate, pow_add, fractionValue]
  push_cast
  field_simp

theorem length_le_of_fractionValue {first second : List Char}
    (digits : ∀ c ∈ second, c.isDigit = true) (noIdleZero : second.getLast? ≠ some '0')
    (same : fractionValue first = fractionValue second) : second.length ≤ first.length := by
  by_contra longer
  obtain ⟨more, length⟩ : ∃ more, second.length = first.length + more + 1 :=
    ⟨second.length - first.length - 1, by omega⟩
  have nonempty : second ≠ [] := by
    rintro rfl
    simp at length
  have scaled : (Nat.ofDigitChars 10 second 0 : ℚ) =
      Nat.ofDigitChars 10 first 0 * 10 ^ (more + 1) := by
    rw [fractionValue, fractionValue, length, add_assoc, pow_add] at same
    field_simp at same
    exact same.symm
  have natural : Nat.ofDigitChars 10 second 0 = Nat.ofDigitChars 10 first 0 * 10 ^ (more + 1) := by
    exact_mod_cast scaled
  refine noIdleZero ((ofDigitChars_mod_ten digits nonempty).mp ?_)
  rw [natural, pow_succ, ← mul_assoc]
  exact Nat.mul_mod_left _ _

theorem eq_of_fractionValue {first second : List Char} (digits : ∀ c ∈ first, c.isDigit = true)
    (digits' : ∀ c ∈ second, c.isDigit = true) (noIdleZero : first.getLast? ≠ some '0')
    (noIdleZero' : second.getLast? ≠ some '0')
    (same : fractionValue first = fractionValue second) : first = second := by
  have length : first.length = second.length :=
    le_antisymm (length_le_of_fractionValue digits noIdleZero same.symm)
      (length_le_of_fractionValue digits' noIdleZero' same)
  rw [fractionValue, fractionValue, length] at same
  have cast := (div_left_inj' (pow_ne_zero _ (by norm_num))).mp same
  exact eq_of_ofDigitChars digits digits' length (by exact_mod_cast cast)

def pointedValue (whole fraction : List Char) : ℚ :=
  Nat.ofDigitChars 10 whole 0 + fractionValue fraction

theorem pointedValue_eq_div (whole fraction : List Char) :
    pointedValue whole fraction =
      Nat.ofDigitChars 10 (whole ++ fraction) 0 / 10 ^ fraction.length := by
  rw [pointedValue, fractionValue, Nat.ofDigitChars_append,
    @Nat.ofDigitChars_eq_ofDigitChars_zero fraction (Nat.ofDigitChars 10 whole 0)]
  push_cast
  field_simp

theorem pointedValue_nonneg (whole fraction : List Char) : 0 ≤ pointedValue whole fraction :=
  add_nonneg (Nat.cast_nonneg _) (fractionValue_nonneg fraction)

theorem floor_pointedValue (whole : List Char) {fraction : List Char}
    (digits : ∀ c ∈ fraction, c.isDigit = true) :
    ⌊pointedValue whole fraction⌋₊ = Nat.ofDigitChars 10 whole 0 := by
  rw [pointedValue, add_comm, Nat.floor_add_natCast (fractionValue_nonneg fraction),
    Nat.floor_eq_zero.mpr (fractionValue_lt_one digits), zero_add]

end Worksheet
