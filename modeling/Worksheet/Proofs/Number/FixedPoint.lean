import Mathlib
import Worksheet.Proofs.Number.Positional

/-!
# Decimals with a point

A decimal is written as a sign, digits, and further digits behind a point. It is written canonically
if no zero at its ends is superfluous and zero has no sign, and then its value gives its text.
Trimming zeros and a bare point from the end of a text, and the sign from what is left of zero,
makes the text canonical without changing its value: the point keeps the zeros in front of it.
-/

set_option autoImplicit false

namespace Worksheet

structure FixedPoint where
  negative : Bool
  whole : List Char
  fraction : List Char
  wholeDigits : ∀ c ∈ whole, c.isDigit = true
  fractionDigits : ∀ c ∈ fraction, c.isDigit = true
  nonempty : whole ≠ []
  noIdleZero : whole.head? = some '0' → whole = ['0']

namespace FixedPoint

def pointed : List Char → List Char
  | [] => []
  | fraction => '.' :: fraction

theorem pointed_of_ne_nil {fraction : List Char} (nonempty : fraction ≠ []) :
    pointed fraction = '.' :: fraction := by
  cases fraction with
  | nil => exact absurd rfl nonempty
  | cons c rest => rfl

def chars (form : FixedPoint) : List Char :=
  signed form.negative (form.whole ++ pointed form.fraction)

def size (form : FixedPoint) : ℚ :=
  pointedValue form.whole form.fraction

def value (form : FixedPoint) : ℚ :=
  if form.negative then -form.size else form.size

/-- No digit at the end is superfluous, and zero has no sign. -/
structure IsCanonical (form : FixedPoint) : Prop where
  noIdleZeroBehind : form.fraction.getLast? ≠ some '0'
  noMinusZero : form.negative = true → form.whole ≠ ['0'] ∨ form.fraction ≠ []

def zero : FixedPoint where
  negative := false
  whole := ['0']
  fraction := []
  wholeDigits := by simp
  fractionDigits := by simp
  nonempty := by decide
  noIdleZero := fun _ => rfl

theorem size_zero : zero.size = 0 := by
  have digits : Nat.ofDigitChars 10 ['0'] 0 = 0 := rfl
  simp [size, zero, pointedValue, fractionValue, digits]

theorem isCanonical_zero : zero.IsCanonical where
  noIdleZeroBehind := nofun
  noMinusZero := nofun

variable {form other : FixedPoint}

theorem size_nonneg (form : FixedPoint) : 0 ≤ form.size :=
  pointedValue_nonneg _ _

theorem abs_value (form : FixedPoint) : |form.value| = form.size := by
  unfold value
  split
  · rw [abs_neg, abs_of_nonneg form.size_nonneg]
  · exact abs_of_nonneg form.size_nonneg

theorem whole_eq_of_size (same : form.size = other.size) : form.whole = other.whole := by
  have digits (form : FixedPoint) : digitChars ⌊form.size⌋₊ = form.whole := by
    rw [size, floor_pointedValue _ form.fractionDigits]
    exact digitChars_ofDigitChars form.wholeDigits form.nonempty form.noIdleZero
  rw [← digits form, same, digits other]

theorem fraction_eq_of_size (trimmed : form.fraction.getLast? ≠ some '0')
    (trimmed' : other.fraction.getLast? ≠ some '0') (same : form.size = other.size) :
    form.fraction = other.fraction := by
  have whole := whole_eq_of_size same
  rw [size, size, pointedValue, pointedValue, whole, add_right_inj] at same
  exact eq_of_fractionValue form.fractionDigits other.fractionDigits trimmed trimmed' same

theorem size_of_zero (whole : form.whole = ['0']) (fraction : form.fraction = []) :
    form.size = 0 := by
  rw [← size_zero, size, whole, fraction]
  rfl

theorem eq_zero_of_size (trimmed : form.fraction.getLast? ≠ some '0') (none : form.size = 0) :
    form.whole = ['0'] ∧ form.fraction = [] := by
  have same : form.size = zero.size := none.trans size_zero.symm
  exact ⟨whole_eq_of_size same, fraction_eq_of_size trimmed isCanonical_zero.1 same⟩

theorem IsCanonical.nonzero (canonical : form.IsCanonical) (negative : form.negative = true) :
    0 < form.size := by
  refine lt_of_le_of_ne form.size_nonneg fun none => ?_
  obtain ⟨whole, fraction⟩ := eq_zero_of_size canonical.noIdleZeroBehind none.symm
  exact (canonical.noMinusZero negative).elim (absurd whole) (absurd fraction)

theorem IsCanonical.negative_iff (canonical : form.IsCanonical) :
    form.negative = true ↔ form.value < 0 := by
  constructor
  · intro negative
    have positive := canonical.nonzero negative
    rw [value, if_pos negative]
    linarith
  · intro below
    by_contra positive
    rw [value, if_neg positive] at below
    exact absurd form.size_nonneg (not_le.mpr below)

theorem IsCanonical.eq_of_value (canonical : form.IsCanonical) (canonical' : other.IsCanonical)
    (same : form.value = other.value) : form = other := by
  have sizes : form.size = other.size := by rw [← abs_value, ← abs_value, same]
  have signs : form.negative = other.negative := by
    rw [Bool.eq_iff_iff, canonical.negative_iff, canonical'.negative_iff, same]
  have wholes := whole_eq_of_size sizes
  have fractions :=
    fraction_eq_of_size canonical.noIdleZeroBehind canonical'.noIdleZeroBehind sizes
  cases form
  cases other
  simp_all

def trimmed (form : FixedPoint) : FixedPoint :=
  { form with
    fraction := form.fraction.rdropWhile (· == '0')
    fractionDigits := fun c member =>
      form.fractionDigits c ((List.rdropWhile_prefix _ _).subset member) }

theorem fraction_trimmed (form : FixedPoint) :
    form.trimmed.fraction = form.fraction.rdropWhile (· == '0') := rfl

theorem getLast?_trimmed (form : FixedPoint) : form.trimmed.fraction.getLast? ≠ some '0' := by
  intro zero
  rw [fraction_trimmed] at zero
  have nonempty : form.fraction.rdropWhile (· == '0') ≠ [] := by
    intro empty
    rw [empty] at zero
    cases zero
  have last := List.rdropWhile_last_not _ _ nonempty
  rw [List.getLast?_eq_some_getLast nonempty] at zero
  exact last (beq_iff_eq.mpr (Option.some.inj zero))

theorem size_trimmed (form : FixedPoint) : form.trimmed.size = form.size := by
  have zeros : form.fraction.rtakeWhile (· == '0') =
      List.replicate (form.fraction.rtakeWhile (· == '0')).length '0' :=
    List.eq_replicate_of_mem fun c member => by
      have isZero := List.mem_rtakeWhile_imp member
      exact beq_iff_eq.mp isZero
  have fractions : fractionValue form.fraction = fractionValue form.trimmed.fraction := by
    rw [fraction_trimmed]
    conv_lhs => rw [← List.rdropWhile_append_rtakeWhile (p := (· == '0')) (l := form.fraction)]
    rw [zeros, fractionValue_append_zeros]
  rw [size, size, pointedValue, pointedValue, fractions]
  rfl

theorem value_trimmed (form : FixedPoint) : form.trimmed.value = form.value := by
  rw [value, value, size_trimmed]
  rfl

theorem rdropWhile_append {member : Char → Bool} {front : List Char}
    (stops : front.rdropWhile member = front) (back : List Char) :
    (front ++ back).rdropWhile member = front ++ back.rdropWhile member := by
  induction back using List.reverseRecOn with
  | nil => simpa using stops
  | append_singleton back c ih =>
      rw [← List.append_assoc]
      by_cases dropped : member c = true
      · rw [List.rdropWhile_concat_pos _ _ _ dropped, List.rdropWhile_concat_pos _ _ _ dropped, ih]
      · rw [List.rdropWhile_concat_neg _ _ _ dropped, List.rdropWhile_concat_neg _ _ _ dropped,
          List.append_assoc]

theorem rdropWhile_point {text : List Char} (last : ∀ c ∈ text.getLast?, c.isDigit = true) :
    text.rdropWhile (· == '.') = text := by
  refine List.rdropWhile_eq_self_iff.mpr fun nonempty point => ?_
  have digit := last _ (List.getLast?_eq_some_getLast nonempty)
  rw [beq_iff_eq.mp point] at digit
  exact absurd digit (by decide)

/-- The text without the zeros and then without the point at its end. -/
theorem rdropWhile_chars (fractional : form.fraction ≠ []) :
    (form.chars.rdropWhile (· == '0')).rdropWhile (· == '.') = form.trimmed.chars := by
  have front (text : List Char) : signed form.negative (form.whole ++ text) =
      signed form.negative form.whole ++ text := by
    unfold signed
    split <;> rfl
  have wholeLast : ∀ c ∈ (signed form.negative form.whole).getLast?, c.isDigit = true := by
    intro c member
    refine form.wholeDigits c (List.mem_of_getLast? ?_)
    have split := front []
    unfold signed at member
    split at member
    · rwa [List.getLast?_cons_of_ne_nil form.nonempty] at member
    · exact member
  have point : (signed form.negative form.whole ++ ['.']).rdropWhile (· == '0') =
      signed form.negative form.whole ++ ['.'] := List.rdropWhile_concat_neg _ _ _ (by decide)
  have zeros : form.chars.rdropWhile (· == '0') =
      signed form.negative form.whole ++ '.' :: form.trimmed.fraction := by
    rw [chars, pointed_of_ne_nil fractional, front, List.append_cons, rdropWhile_append point,
      List.append_assoc]
    rfl
  rw [zeros, chars]
  change _ = signed form.negative (form.whole ++ _)
  rw [front]
  by_cases empty : form.trimmed.fraction = []
  · rw [empty, List.rdropWhile_concat_pos _ _ _ (by decide), rdropWhile_point wholeLast, pointed,
      List.append_nil]
  · rw [pointed_of_ne_nil empty]
    refine rdropWhile_point fun c member => ?_
    rw [List.getLast?_append_of_ne_nil _ (List.cons_ne_nil _ _),
      List.getLast?_cons_of_ne_nil empty] at member
    exact form.trimmed.fractionDigits c (List.mem_of_getLast? member)

theorem pointed_eq_nil {fraction : List Char} (bare : pointed fraction = []) : fraction = [] := by
  cases fraction with
  | nil => rfl
  | cons c rest => cases bare

theorem chars_eq_minusZero_iff :
    form.chars = ['-', '0'] ↔ form.negative = true ∧ form.whole = ['0'] ∧ form.fraction = [] := by
  constructor
  · intro written
    obtain ⟨first, rest, whole⟩ := List.exists_cons_of_ne_nil form.nonempty
    rw [chars, signed, whole] at written
    cases negative : form.negative with
    | true =>
        rw [negative, if_pos rfl] at written
        obtain ⟨rfl, bare⟩ := List.cons.inj (List.cons.inj written).2
        obtain ⟨rfl, point⟩ := List.append_eq_nil_iff.mp bare
        exact ⟨rfl, whole, pointed_eq_nil point⟩
    | false =>
        rw [negative, if_neg Bool.false_ne_true] at written
        have digit := form.wholeDigits first (by simp [whole])
        rw [(List.cons.inj written).1] at digit
        exact absurd digit (by decide)
  · rintro ⟨negative, whole, fraction⟩
    rw [chars, negative, whole, fraction]
    rfl

def settled (form : FixedPoint) : FixedPoint :=
  if form.trimmed.chars = ['-', '0'] then zero else form.trimmed

theorem chars_settled (form : FixedPoint) :
    form.settled.chars = if form.trimmed.chars = ['-', '0'] then ['0'] else form.trimmed.chars := by
  unfold settled
  split <;> rfl

theorem isCanonical_settled (form : FixedPoint) : form.settled.IsCanonical := by
  unfold settled
  split
  · exact isCanonical_zero
  · rename_i other
    refine ⟨form.getLast?_trimmed, fun negative => ?_⟩
    by_contra bare
    rw [not_or, not_not, not_not] at bare
    exact other (chars_eq_minusZero_iff.mpr ⟨negative, bare⟩)

theorem value_settled (form : FixedPoint) : form.settled.value = form.value := by
  unfold settled
  split
  · rename_i minusZero
    obtain ⟨_, whole, fraction⟩ := chars_eq_minusZero_iff.mp minusZero
    have none := size_of_zero whole fraction
    have zeroValue : zero.value = 0 := size_zero
    rw [zeroValue, eq_comm, ← abs_eq_zero, abs_value, ← size_trimmed, none]
  · exact form.value_trimmed

/-! ## Decimals with a number of places -/

section Positional

variable {digits places : Nat}

theorem positional_of_lt {count : Nat}
    (length : (digitChars digits).length = count + 1 + places) :
    Decimal.positional ⟨digits, -places⟩ =
      (digitChars digits).take (count + 1) ++ pointed ((digitChars digits).drop (count + 1)) := by
  have front : (digitChars digits).length - places = count + 1 := by omega
  unfold Decimal.positional
  simp only [neg_neg, Int.toNat_natCast, front]
  by_cases none : places = 0
  · subst none
    have behind : (digitChars digits).drop (count + 1) = [] := List.drop_eq_nil_of_le (by omega)
    have whole : (digitChars digits).take (count + 1) = digitChars digits :=
      List.take_of_length_le (by omega)
    rw [if_pos (by omega), behind, whole]
    rfl
  · have behind : (digitChars digits).drop (count + 1) ≠ [] := by
      rw [ne_eq, List.drop_eq_nil_iff]
      omega
    rw [if_neg (by omega), if_pos (by omega), pointed_of_ne_nil behind]

theorem positional_of_le (long : (digitChars digits).length ≤ places) :
    Decimal.positional ⟨digits, -places⟩ =
      ['0'] ++ pointed (List.replicate (places - (digitChars digits).length) '0' ++
        digitChars digits) := by
  have positive : 0 < (digitChars digits).length := Nat.length_toDigits_pos
  have behind : List.replicate (places - (digitChars digits).length) '0' ++ digitChars digits ≠
      [] := by simp [digitChars_ne_nil]
  unfold Decimal.positional
  simp only [neg_neg, Int.toNat_natCast]
  rw [if_neg (by omega), if_neg (by omega), pointed_of_ne_nil behind]
  rfl

/-- The text of a decimal is that of a form with as many digits behind the point as the decimal has
places. -/
theorem exists_positional (negative : Bool) (digits places : Nat) :
    ∃ form : FixedPoint, form.negative = negative ∧ form.fraction.length = places ∧
      Nat.ofDigitChars 10 (form.whole ++ form.fraction) 0 = digits ∧
        form.chars = signed negative (Decimal.positional ⟨digits, -places⟩) := by
  have allDigits : ∀ c ∈ digitChars digits, c.isDigit = true :=
    fun c member => isDigit_of_mem_digitChars member
  rcases Nat.lt_or_ge places (digitChars digits).length with inside | outside
  · obtain ⟨count, length⟩ : ∃ count, (digitChars digits).length = count + 1 + places :=
      ⟨(digitChars digits).length - places - 1, by omega⟩
    let form : FixedPoint :=
      { negative
        whole := (digitChars digits).take (count + 1)
        fraction := (digitChars digits).drop (count + 1)
        wholeDigits := fun c member => allDigits c (List.mem_of_mem_take member)
        fractionDigits := fun c member => allDigits c (List.mem_of_mem_drop member)
        nonempty := by simp [List.take_eq_nil_iff, digitChars_ne_nil]
        noIdleZero := by
          intro zero
          rw [List.head?_take, if_neg (Nat.succ_ne_zero count)] at zero
          rw [digitChars_of_head zero]
          exact List.take_of_length_le (Nat.le_add_left _ _) }
    refine ⟨form, rfl, ?_, ?_, ?_⟩
    · change ((digitChars digits).drop (count + 1)).length = places
      rw [List.length_drop]
      omega
    · rw [List.take_append_drop, ofDigitChars_digitChars]
    · rw [positional_of_lt length]
      rfl
  · let form : FixedPoint :=
      { negative
        whole := ['0']
        fraction := List.replicate (places - (digitChars digits).length) '0' ++ digitChars digits
        wholeDigits := by simp
        fractionDigits := List.forall_mem_append.mpr ⟨fun _ => isDigit_of_mem_zeros, allDigits⟩
        nonempty := by decide
        noIdleZero := fun _ => rfl }
    refine ⟨form, rfl, ?_, ?_, ?_⟩
    · change (List.replicate _ '0' ++ digitChars digits).length = places
      rw [List.length_append, List.length_replicate]
      omega
    · exact ofDigitChars_zeros_digitChars _ digits
    · rw [positional_of_le outside]
      rfl

theorem size_of_digits (long : form.fraction.length = places)
    (same : Nat.ofDigitChars 10 (form.whole ++ form.fraction) 0 = digits) :
    form.size = digits / 10 ^ places := by
  rw [size, pointedValue_eq_div, same, long]

theorem getLast?_of_digits (long : form.fraction.length = places)
    (same : Nat.ofDigitChars 10 (form.whole ++ form.fraction) 0 = digits)
    (stops : places = 0 ∨ digits % 10 ≠ 0) : form.fraction.getLast? ≠ some '0' := by
  intro zero
  have nonempty : form.fraction ≠ [] := by
    intro empty
    rw [empty] at zero
    cases zero
  have last : (form.whole ++ form.fraction).getLast? = some '0' := by
    rwa [List.getLast?_append_of_ne_nil _ nonempty]
  have allDigits := List.forall_mem_append.mpr ⟨form.wholeDigits, form.fractionDigits⟩
  have wholeNonempty := List.append_ne_nil_of_right_ne_nil form.whole nonempty
  have multiple := (ofDigitChars_mod_ten allDigits wholeNonempty).mpr last
  rw [same] at multiple
  have positive := List.length_pos_of_ne_nil nonempty
  exact stops.elim (by omega) (absurd multiple)

theorem value_of_sign {negative : Bool} (sign : form.negative = (negative && digits != 0))
    (size : form.size = digits / 10 ^ places) :
    form.value = if negative then -(digits / 10 ^ places : ℚ) else digits / 10 ^ places := by
  rw [value, sign, size]
  cases negative with
  | false => rfl
  | true => by_cases zero : digits = 0 <;> simp [zero]

end Positional

end FixedPoint

end Worksheet
