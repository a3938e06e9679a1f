import Mathlib
import Worksheet.Expression.Token
import Worksheet.Proofs.Number.Bits
import Worksheet.Proofs.Number.Nearest

/-!
# Spelled numbers read back

The spelling of a finite number is a numeral without a sign, up to a minus in front, and reading
it rounds to the number again. The decimal of the spelling lies among the reals that round to the
magnitude, positional digits do not change a decimal, and rounding is exact on those reals.
-/

set_option autoImplicit false

namespace Worksheet

namespace Decimal

def value (d : Decimal) : ℚ :=
  d.digits * 10 ^ d.exponent

theorem denominator_pos (d : Decimal) : 0 < d.denominator :=
  Nat.pow_pos (by decide)

theorem numerator_div_denominator (d : Decimal) : (d.numerator : ℚ) / d.denominator = d.value := by
  have numerator : (d.numerator : ℚ) = d.digits * 10 ^ d.exponent.toNat := by
    exact_mod_cast rfl
  have denominator : (d.denominator : ℚ) = 10 ^ (-d.exponent).toNat := by
    exact_mod_cast rfl
  rw [numerator, denominator, value, zpow_eq_div (by norm_num), mul_div_assoc]

theorem value_dropZeros (limit : Nat) (d : Decimal) : (d.dropZeros limit).value = d.value := by
  induction limit generalizing d with
  | zero => rfl
  | succ limit ih =>
      unfold dropZeros
      split
      · rename_i whole
        rw [ih]
        have digits : d.digits = 10 * (d.digits / 10) := by omega
        have cast : (d.digits : ℚ) = 10 * (d.digits / 10 : Nat) := by exact_mod_cast digits
        simp only [value, cast]
        rw [zpow_add_one₀ (by norm_num)]
        ring
      · rfl

end Decimal

namespace Magnitude

theorem quarters_eq_div (x : Magnitude) (quarters : Nat) :
    (quarters : ℚ) * 2 ^ x.exponent =
      (quarters * Nat.pow 2 x.exponent.toNat : Nat) / (Nat.pow 2 (-x.exponent).toNat : Nat) := by
  rw [zpow_eq_div two_ne_zero, ← mul_div_assoc]
  congr 1 <;> exact_mod_cast rfl

theorem four_mul_value (d : Decimal) : 4 * d.value = (d.numerator * 4 : Nat) / d.denominator := by
  rw [← d.numerator_div_denominator]
  push_cast
  ring

theorem compareQuarters_eq_lt (x : Magnitude) (d : Decimal) (quarters : Nat) :
    x.compareQuarters d quarters = .lt ↔ 4 * d.value < quarters * (2 : ℚ) ^ x.exponent := by
  have denominator : (0 : ℚ) < d.denominator := by exact_mod_cast d.denominator_pos
  have power : (0 : ℚ) < (Nat.pow 2 (-x.exponent).toNat : Nat) := by
    exact_mod_cast Nat.pow_pos (by decide)
  rw [compareQuarters, Nat.compare_eq_lt, four_mul_value, quarters_eq_div,
    div_lt_div_iff₀ denominator power]
  exact_mod_cast Iff.rfl

theorem compareQuarters_eq_gt (x : Magnitude) (d : Decimal) (quarters : Nat) :
    x.compareQuarters d quarters = .gt ↔ quarters * (2 : ℚ) ^ x.exponent < 4 * d.value := by
  have denominator : (0 : ℚ) < d.denominator := by exact_mod_cast d.denominator_pos
  have power : (0 : ℚ) < (Nat.pow 2 (-x.exponent).toNat : Nat) := by
    exact_mod_cast Nat.pow_pos (by decide)
  rw [compareQuarters, Nat.compare_eq_gt, four_mul_value, quarters_eq_div,
    div_lt_div_iff₀ power denominator]
  exact_mod_cast Iff.rfl

theorem readsBack_iff (x : Magnitude) (d : Decimal) : x.readsBack d = true ↔ x.Covers d.value := by
  have low := compareQuarters_eq_lt x d x.lowerQuarters
  have high := compareQuarters_eq_gt x d x.upperQuarters
  have lowStrict := compareQuarters_eq_gt x d x.lowerQuarters
  have highStrict := compareQuarters_eq_lt x d x.upperQuarters
  unfold readsBack
  by_cases even : x.mantissa % 2 = 0
  · simp only [if_pos even, Bool.and_eq_true, bne_iff_ne, ne_eq, low, high, not_lt]
    constructor
    · rintro ⟨atLeast, atMost⟩
      exact ⟨atLeast, atMost, fun odd => by omega⟩
    · intro covers
      exact ⟨covers.low, covers.high⟩
  · simp only [if_neg even, Bool.and_eq_true, beq_iff_eq, lowStrict, highStrict]
    constructor
    · rintro ⟨above, below⟩
      exact ⟨above.le, below.le, fun _ => ⟨above, below⟩⟩
    · intro covers
      exact covers.open_of_odd (by omega)

theorem onGrid?_readsBack {tie : Tie} {place : Int} {x : Magnitude} {d : Decimal}
    (found : x.onGrid? tie place = some d) : x.readsBack d = true := by
  unfold onGrid? at found
  simp only [] at found
  split at found
  · rename_i below above
    injection found with same
    subst same
    have either : x.digitsAt tie place = x.numerator * Nat.pow 10 (-place).toNat /
          (x.denominator * Nat.pow 10 place.toNat) ∨
        x.digitsAt tie place = x.numerator * Nat.pow 10 (-place).toNat /
          (x.denominator * Nat.pow 10 place.toNat) + 1 := roundDiv_eq_or _ _ _
    rcases either with same | same <;> rw [same] <;> assumption
  · injection found with same
    subst same
    assumption
  · injection found with same
    subst same
    assumption
  · cases found

theorem value_toDecimal (x : Magnitude) :
    x.toDecimal.value = x.mantissa * (2 : ℚ) ^ x.exponent := by
  unfold toDecimal Decimal.value
  split
  · rename_i negative
    obtain ⟨k, exponent⟩ : ∃ k : Nat, x.exponent = -k := ⟨(-x.exponent).toNat, by omega⟩
    simp only [exponent, neg_neg, Int.toNat_natCast, zpow_neg, zpow_natCast]
    have factors : (10 : ℚ) ^ k = 2 ^ k * 5 ^ k := by
      rw [← mul_pow]
      norm_num
    have five : ((Nat.pow 5 k : Nat) : ℚ) = 5 ^ k := by exact_mod_cast rfl
    rw [Nat.cast_mul, five, factors]
    field_simp
  · rename_i whole
    obtain ⟨k, exponent⟩ : ∃ k : Nat, x.exponent = k := ⟨x.exponent.toNat, by omega⟩
    have two : ((Nat.pow 2 k : Nat) : ℚ) = 2 ^ k := by exact_mod_cast rfl
    simp only [exponent, Int.toNat_natCast, Nat.cast_mul, two, zpow_natCast, zpow_zero, mul_one]

theorem covers_self {x : Magnitude} (nonzero : 0 < x.mantissa) :
    x.Covers (x.mantissa * (2 : ℚ) ^ x.exponent) := by
  have unit : (0 : ℚ) < 2 ^ x.exponent := by positivity
  have below : (x.lowerQuarters : ℚ) < 4 * x.mantissa := by
    have natural : x.lowerQuarters < 4 * x.mantissa := by
      unfold lowerQuarters
      split <;> omega
    exact_mod_cast natural
  have above : (4 * x.mantissa : ℚ) < x.upperQuarters := by
    have natural : 4 * x.mantissa < x.upperQuarters := by
      unfold upperQuarters
      omega
    exact_mod_cast natural
  have low := mul_lt_mul_of_pos_right below unit
  have high := mul_lt_mul_of_pos_right above unit
  exact ⟨by linarith, by linarith, fun _ => ⟨by linarith, by linarith⟩⟩

theorem covers_shortest (tie : Tie) {x : Magnitude} (nonzero : 0 < x.mantissa) :
    x.Covers (x.shortest tie).value := by
  unfold shortest
  simp only []
  rw [Decimal.value_dropZeros]
  cases found : (List.range 17).findSome? fun count =>
      x.onGrid? tie (x.decimalScale - (count + 1 : Nat)) with
  | none =>
      rw [Option.getD_none, value_toDecimal]
      exact covers_self nonzero
  | some d =>
      obtain ⟨count, _, onGrid⟩ := List.exists_of_findSome?_eq_some found
      exact (readsBack_iff x d).mp (onGrid?_readsBack onGrid)

end Magnitude

/-! ## Reading positional digits -/

theorem isDigit_of_mem_digitChars {n : Nat} {c : Char} (member : c ∈ digitChars n) :
    c.isDigit = true :=
  Nat.isDigit_of_mem_toDigits (by decide) (by decide) member

theorem natural?_of_digits {text : List Char} (nonempty : text ≠ [])
    (digits : ∀ c ∈ text, c.isDigit = true) :
    Numeral.natural? text = some (Nat.ofDigitChars 10 text 0) := by
  rw [Numeral.natural?, if_pos ⟨nonempty, List.all_eq_true.mpr digits⟩]

theorem ofDigitChars_digitChars (n : Nat) : Nat.ofDigitChars 10 (digitChars n) 0 = n :=
  Nat.ofDigitChars_ten_toDigits

theorem digitChars_ne_nil (n : Nat) : digitChars n ≠ [] :=
  Nat.toDigits_ne_nil

theorem isDigit_of_mem_zeros {n : Nat} {c : Char} (member : c ∈ List.replicate n '0') :
    c.isDigit = true := by
  rw [List.eq_of_mem_replicate member]
  decide

theorem ofDigitChars_zeros_digitChars (n number : Nat) :
    Nat.ofDigitChars 10 (['0'] ++ (List.replicate n '0' ++ digitChars number)) 0 = number := by
  rw [Nat.ofDigitChars_append, Nat.ofDigitChars_append, Nat.ofDigitChars_replicate_zero]
  change Nat.ofDigitChars 10 (digitChars number) (_ * 0) = number
  rw [mul_zero, ofDigitChars_digitChars]

theorem magnitude?_of_digits {text : List Char} (nonempty : text ≠ [])
    (digits : ∀ c ∈ text, c.isDigit = true) :
    Numeral.magnitude? text = some ⟨Nat.ofDigitChars 10 text 0, 0⟩ := by
  have whole : text.takeWhile Char.isDigit = text := List.takeWhile_eq_self_iff.mpr digits
  have rest : text.dropWhile Char.isDigit = [] := List.dropWhile_eq_nil_iff.mpr digits
  simp only [Numeral.magnitude?, whole, rest, Numeral.takeFraction, List.append_nil,
    natural?_of_digits nonempty digits, Numeral.exponent?, Option.bind_eq_bind, Option.bind_some,
    Option.pure_def, List.length_nil, Nat.cast_zero, sub_zero]

theorem magnitude?_of_point {whole fraction : List Char} (nonempty : whole ++ fraction ≠ [])
    (wholeDigits : ∀ c ∈ whole, c.isDigit = true)
    (fractionDigits : ∀ c ∈ fraction, c.isDigit = true) :
    Numeral.magnitude? (whole ++ '.' :: fraction) =
      some ⟨Nat.ofDigitChars 10 (whole ++ fraction) 0, -fraction.length⟩ := by
  have taken : (whole ++ '.' :: fraction).takeWhile Char.isDigit = whole := by
    rw [List.takeWhile_append_of_pos wholeDigits, List.takeWhile_cons_of_neg (by decide),
      List.append_nil]
  have dropped : (whole ++ '.' :: fraction).dropWhile Char.isDigit = '.' :: fraction := by
    rw [List.dropWhile_append_of_pos wholeDigits, List.dropWhile_cons_of_neg (by decide)]
  have fractionTaken : fraction.takeWhile Char.isDigit = fraction :=
    List.takeWhile_eq_self_iff.mpr fractionDigits
  have fractionDropped : fraction.dropWhile Char.isDigit = [] :=
    List.dropWhile_eq_nil_iff.mpr fractionDigits
  have digits : ∀ c ∈ whole ++ fraction, c.isDigit = true :=
    List.forall_mem_append.mpr ⟨wholeDigits, fractionDigits⟩
  simp only [Numeral.magnitude?, taken, dropped, Numeral.takeFraction, fractionTaken,
    fractionDropped, natural?_of_digits nonempty digits, Numeral.exponent?, Option.bind_eq_bind,
    Option.bind_some, Option.pure_def, zero_sub]

namespace Decimal

theorem magnitude?_positional (d : Decimal) :
    ∃ read, Numeral.magnitude? d.positional = some read ∧
      read.numerator = d.numerator ∧ read.denominator = d.denominator := by
  obtain ⟨digits, exponent⟩ := d
  unfold positional
  simp only []
  by_cases whole : 0 ≤ exponent
  · rw [if_pos whole]
    have allDigits : ∀ c ∈ digitChars digits ++ List.replicate exponent.toNat '0',
        c.isDigit = true :=
      List.forall_mem_append.mpr
        ⟨fun _ => isDigit_of_mem_digitChars, fun _ => isDigit_of_mem_zeros⟩
    refine ⟨_, magnitude?_of_digits (by simp [digitChars_ne_nil]) allDigits, ?_, ?_⟩
    · rw [Nat.ofDigitChars_append, ofDigitChars_digitChars, Nat.ofDigitChars_replicate_zero]
      simp only [numerator, Int.toNat_zero, Nat.pow_eq, pow_zero, mul_one]
      exact mul_comm _ _
    · simp only [denominator, neg_zero, Int.toNat_zero]
      rw [Int.toNat_of_nonpos (by omega)]
  · rw [if_neg whole]
    obtain ⟨places, rfl⟩ : ∃ places : Nat, exponent = -places := ⟨(-exponent).toNat, by omega⟩
    simp only [neg_neg, Int.toNat_natCast]
    by_cases inside : places < (digitChars digits).length
    · rw [if_pos inside]
      refine ⟨_, magnitude?_of_point (by simp [digitChars_ne_nil])
        (fun c member => isDigit_of_mem_digitChars (List.mem_of_mem_take member))
        (fun c member => isDigit_of_mem_digitChars (List.mem_of_mem_drop member)), ?_⟩
      have count : ((digitChars digits).drop ((digitChars digits).length - places)).length =
          places := by
        rw [List.length_drop]
        omega
      rw [List.take_append_drop, ofDigitChars_digitChars, count]
      exact ⟨rfl, rfl⟩
    · rw [if_neg inside]
      have allDigits : ∀ c ∈ List.replicate (places - (digitChars digits).length) '0' ++
          digitChars digits, c.isDigit = true :=
        List.forall_mem_append.mpr
          ⟨fun _ => isDigit_of_mem_zeros, fun _ => isDigit_of_mem_digitChars⟩
      refine ⟨_, @magnitude?_of_point ['0'] _ (by simp) (by simp) allDigits, ?_⟩
      have count : (List.replicate (places - (digitChars digits).length) '0' ++
          digitChars digits).length = places := by
        rw [List.length_append, List.length_replicate]
        omega
      rw [ofDigitChars_zeros_digitChars, count]
      exact ⟨rfl, rfl⟩

/-! ## Rounding and spelling -/

theorem lt_pow_length (n : Nat) : n < 10 ^ (digitChars n).length :=
  (Nat.length_toDigits_le_iff (by decide) Nat.length_toDigits_pos).mp le_rfl

theorem pow_length_le {n : Nat} (positive : 0 < n) : 10 ^ ((digitChars n).length - 1) ≤ n := by
  by_contra below
  rcases Nat.eq_zero_or_pos ((digitChars n).length - 1) with single | longer
  · rw [single, pow_zero] at below
    omega
  · have shorter := (Nat.length_toDigits_le_iff (by decide) longer).mpr (not_le.mp below)
    have same : (Nat.toDigits 10 n).length = (digitChars n).length := rfl
    omega

theorem value_lt (d : Decimal) :
    d.value < 10 ^ ((digitChars d.digits).length + d.exponent : ℤ) := by
  have digits : (d.digits : ℚ) < 10 ^ (digitChars d.digits).length := by
    exact_mod_cast lt_pow_length d.digits
  have unit : (0 : ℚ) < 10 ^ d.exponent := by positivity
  rw [value, zpow_add₀ (by norm_num), zpow_natCast]
  exact mul_lt_mul_of_pos_right digits unit

theorem le_value {d : Decimal} (positive : 0 < d.digits) :
    (10 : ℚ) ^ ((digitChars d.digits).length + d.exponent - 1 : ℤ) ≤ d.value := by
  have long : 0 < (digitChars d.digits).length := Nat.length_toDigits_pos
  have digits : (10 : ℚ) ^ ((digitChars d.digits).length - 1) ≤ d.digits := by
    exact_mod_cast pow_length_le positive
  have unit : (0 : ℚ) < 10 ^ d.exponent := by positivity
  have split : ((digitChars d.digits).length + d.exponent - 1 : ℤ) =
      ((digitChars d.digits).length - 1 : Nat) + d.exponent := by omega
  rw [value, split, zpow_add₀ (by norm_num), zpow_natCast]
  exact mul_le_mul_of_nonneg_right digits unit.le

end Decimal

namespace Magnitude

variable {x : Magnitude} {bits : Nat} {v : ℚ}

theorem Covers.le_value (covers : x.Covers v) (canonical : x.Canonical bits)
    (nonzero : 0 < x.mantissa) : (2 : ℚ) ^ (-1075 : ℤ) ≤ v := by
  have quarters : (2 : ℚ) ≤ x.lowerQuarters := by
    have least := two_mul_le_lowerQuarters x
    have natural : 2 ≤ x.lowerQuarters := by omega
    exact_mod_cast natural
  have unit : (2 : ℚ) ^ (-1074 : ℤ) ≤ 2 ^ x.exponent :=
    zpow_le_zpow_right₀ one_le_two canonical.le_exponent
  have half : (2 : ℚ) ^ (-1074 : ℤ) = 2 ^ (-1075 : ℤ) * 2 := by
    rw [← zpow_add_one₀ two_ne_zero]
    norm_num
  have scaled := mul_le_mul quarters unit (by positivity) (by positivity)
  have low := covers.low
  linarith

theorem Covers.value_lt (covers : x.Covers v) (canonical : x.Canonical bits)
    (finite : bits < 2047 * 2 ^ 52) : v < (2 : ℚ) ^ (1024 : ℤ) := by
  obtain ⟨small, least, normal, bitsEq⟩ := canonical
  have greatest : x.exponent ≤ 971 := by omega
  have quarters : (x.upperQuarters : ℚ) ≤ 2 ^ 55 - 2 := by
    have natural : x.upperQuarters + 2 ≤ 2 ^ 55 := by
      simp only [upperQuarters]
      omega
    have cast : (x.upperQuarters + 2 : ℚ) ≤ 2 ^ 55 := by exact_mod_cast natural
    linarith
  have unit : (2 : ℚ) ^ x.exponent ≤ 2 ^ (971 : ℤ) := zpow_le_zpow_right₀ one_le_two greatest
  have power : (2 : ℚ) ^ (1024 : ℤ) = 2 ^ (971 : ℤ) * 2 ^ 53 := by
    rw [← zpow_natCast, ← zpow_add₀ two_ne_zero]
    norm_num
  have positive : (0 : ℚ) < 2 ^ (971 : ℤ) := by positivity
  have scaled := mul_le_mul quarters unit (by positivity) (by norm_num)
  have high := covers.high
  rw [power]
  generalize (2 : ℚ) ^ (971 : ℤ) = greatestUnit at positive scaled
  linarith

end Magnitude

theorem two_pow_lt_ten_pow : 2 ^ 1075 < 10 ^ 324 := by decide +kernel

theorem two_pow_lt_ten_pow' : 2 ^ 1024 < 10 ^ 309 := by decide +kernel

/-- A decimal that rounds to the magnitude of a number is read as the number without its sign. -/
theorem Decimal.toFloat_eq_unsigned {x : Float} (finite : x.isFinite = true)
    (nonzero : 0 < (Magnitude.ofFloat x).mantissa) {d : Decimal}
    (covers : (Magnitude.ofFloat x).Covers d.value) : d.toFloat false = unsigned x := by
  have bounded := (isFinite_iff_magnitudeBits_lt x).mp finite
  have canonical : (Magnitude.ofFloat x).Canonical (magnitudeBits x) :=
    Magnitude.canonical_ofBits _
  have rounded : Magnitude.nearestBits d.numerator d.denominator = magnitudeBits x :=
    Magnitude.nearestBits_eq d.denominator_pos nonzero bounded
      (d.numerator_div_denominator ▸ covers)
  have low := covers.le_value canonical nonzero
  have high := covers.value_lt canonical bounded
  have digits : 0 < d.digits := by
    rcases Nat.eq_zero_or_pos d.digits with zero | more
    · have positive : (0 : ℚ) < 2 ^ (-1075 : ℤ) := by positivity
      rw [Decimal.value, zero, Nat.cast_zero, zero_mul] at low
      linarith
    · exact more
  -- so neither shortcut applies
  have notSmall : ¬ ((digitChars d.digits).length + d.exponent : ℤ) ≤ -324 := by
    intro small
    have below := d.value_lt.trans_le (zpow_le_zpow_right₀ (by norm_num) small)
    have gap : (10 : ℚ) ^ (-324 : ℤ) < 2 ^ (-1075 : ℤ) := by
      rw [zpow_neg, zpow_neg]
      exact inv_strictAnti₀ (by positivity) (by exact_mod_cast two_pow_lt_ten_pow)
    exact lt_irrefl _ ((low.trans_lt below).trans gap)
  have notLarge : ¬ (310 : ℤ) ≤ (digitChars d.digits).length + d.exponent := by
    intro large
    have exponents : (309 : ℤ) ≤ (digitChars d.digits).length + d.exponent - 1 := by omega
    have above := (zpow_le_zpow_right₀ (by norm_num) exponents).trans (Decimal.le_value digits)
    have gap : (2 : ℚ) ^ (1024 : ℤ) < 10 ^ (309 : ℤ) := by
      exact_mod_cast two_pow_lt_ten_pow'
    exact lt_irrefl _ ((above.trans_lt high).trans gap)
  unfold Decimal.toFloat
  simp only []
  rw [if_neg (by simpa [digits.ne'] using notSmall), if_neg notLarge, nearest, rounded]
  simp only [Bool.false_eq_true, if_false, zero_add]
  rfl

def IsDigits (text : List Char) : Prop :=
  ∃ first rest, text = first :: rest ∧ first.isDigit = true ∧
    ∀ c ∈ text, Token.isNumberChar c = true

theorem isDigits_of_digits {digits rest : List Char} (nonempty : digits ≠ [])
    (allDigits : ∀ c ∈ digits, c.isDigit = true)
    (numeric : ∀ c ∈ rest, Token.isNumberChar c = true) : IsDigits (digits ++ rest) := by
  obtain ⟨first, more, rfl⟩ := List.exists_cons_of_ne_nil nonempty
  refine ⟨first, more ++ rest, rfl, allDigits first List.mem_cons_self, ?_⟩
  intro c member
  rcases List.mem_append.mp member with member | member
  · simp [Token.isNumberChar, allDigits c member]
  · exact numeric c member

theorem Decimal.isDigits_positional (d : Decimal) : IsDigits d.positional := by
  have ofDigits {text : List Char} (digits : ∀ c ∈ text, c.isDigit = true) :
      ∀ c ∈ text, Token.isNumberChar c = true := by
    intro c member
    simp [Token.isNumberChar, digits c member]
  have digits : ∀ c ∈ digitChars d.digits, c.isDigit = true :=
    fun _ => isDigit_of_mem_digitChars
  have zeros (count : Nat) := ofDigits fun _ => @isDigit_of_mem_zeros count _
  have point : Token.isNumberChar '.' = true := rfl
  unfold positional
  simp only []
  split
  · exact isDigits_of_digits (digitChars_ne_nil _) digits (zeros _)
  · split
    · rename_i inside
      refine isDigits_of_digits ?_ (fun c member => digits c (List.mem_of_mem_take member)) ?_
      · rw [ne_eq, List.take_eq_nil_iff]
        rintro (none | empty)
        · omega
        · exact digitChars_ne_nil _ empty
      · exact List.forall_mem_cons.mpr
          ⟨point, fun c member => ofDigits digits c (List.mem_of_mem_drop member)⟩
    · exact @isDigits_of_digits ['0'] _ (by simp) (by simp)
        (List.forall_mem_cons.mpr ⟨point, List.forall_mem_append.mpr ⟨zeros _, ofDigits digits⟩⟩)

theorem isDigits_spellMagnitude (x : Magnitude) : IsDigits (spellMagnitude x) := by
  unfold spellMagnitude
  split
  · exact ⟨'0', [], rfl, by decide, by simp [Token.isNumberChar]⟩
  · exact Decimal.isDigits_positional _

theorem magnitude?_spellMagnitude {x : Float} (finite : x.isFinite = true) :
    ∃ d, Numeral.magnitude? (spellMagnitude (Magnitude.ofFloat x)) = some d ∧
      d.toFloat false = unsigned x := by
  unfold spellMagnitude
  by_cases zero : (Magnitude.ofFloat x).mantissa = 0
  · refine ⟨⟨0, 0⟩, by rw [if_pos zero]; rfl, ?_⟩
    have bits : magnitudeBits x = 0 := by
      have canonical : (Magnitude.ofFloat x).Canonical (magnitudeBits x) :=
        Magnitude.canonical_ofBits _
      obtain ⟨_, least, normal, bitsEq⟩ := canonical
      omega
    rw [unsigned, bits]
    rfl
  · have nonzero : 0 < (Magnitude.ofFloat x).mantissa := Nat.pos_of_ne_zero zero
    rw [if_neg zero]
    obtain ⟨read, found, numerator, denominator⟩ :=
      Decimal.magnitude?_positional ((Magnitude.ofFloat x).shortest .up)
    refine ⟨read, found, Decimal.toFloat_eq_unsigned finite nonzero ?_⟩
    rw [← read.numerator_div_denominator, numerator, denominator,
      Decimal.numerator_div_denominator]
    exact Magnitude.covers_shortest .up nonzero

end Worksheet
