import Mathlib
import Worksheet.Proofs.Number.Closest
import Worksheet.Proofs.Number.Places
import Worksheet.Proofs.Number.Positional
import Worksheet.Proofs.Table.Typing
import Worksheet.Proofs.Text.Blank

/-!
# Numerals in writing

A numeral is written as a sign or none, digits with a point among them or none, and a power of ten
or none. A text counts as a number just if it is a numeral with blanks around it or none whose value
rounds to a finite number, and then it counts as that number. Looking first whether all characters
could stand in a numeral, and then reading the text as a datum, which may also be infinite or not a
number by name, finds the same.
-/

set_option autoImplicit false

namespace Worksheet

inductive LeadingSign where
  | absent
  | plus
  | minus
deriving DecidableEq

namespace LeadingSign

def chars : LeadingSign → List Char
  | absent => []
  | plus => ['+']
  | minus => ['-']

def isMinus (sign : LeadingSign) : Bool :=
  sign = minus

end LeadingSign

structure WrittenExponent where
  mark : Char
  sign : LeadingSign
  digits : List Char
  isMark : mark = 'e' ∨ mark = 'E'
  nonempty : digits ≠ []
  allDigits : ∀ c ∈ digits, c.isDigit = true

namespace WrittenExponent

def chars (exponent : WrittenExponent) : List Char :=
  exponent.mark :: (exponent.sign.chars ++ exponent.digits)

def power (exponent : WrittenExponent) : ℤ :=
  if exponent.sign.isMinus then -(Nat.ofDigitChars 10 exponent.digits 0 : ℤ)
  else Nat.ofDigitChars 10 exponent.digits 0

end WrittenExponent

/-- A numeral. A point may stand without digits behind it or in front of it, but not alone. -/
structure WrittenNumeral where
  sign : LeadingSign
  whole : List Char
  fraction : Option (List Char)
  exponent : Option WrittenExponent
  wholeDigits : ∀ c ∈ whole, c.isDigit = true
  fractionDigits : ∀ c ∈ fraction.getD [], c.isDigit = true
  nonempty : whole ++ fraction.getD [] ≠ []

namespace WrittenNumeral

variable (written : WrittenNumeral)

def exponentChars : List Char :=
  written.exponent.elim [] WrittenExponent.chars

def tail : List Char :=
  written.fraction.elim [] ('.' :: ·) ++ written.exponentChars

def body : List Char :=
  written.whole ++ written.tail

def chars : List Char :=
  written.sign.chars ++ written.body

def size : ℚ :=
  pointedValue written.whole (written.fraction.getD []) *
    10 ^ written.exponent.elim 0 WrittenExponent.power

end WrittenNumeral

/-! ## Reading -/

namespace Numeral

theorem takeSign_append (sign : LeadingSign) {text : List Char}
    (unsigned : ∀ c ∈ text.head?, c ≠ '-' ∧ c ≠ '+') :
    takeSign (sign.chars ++ text) = (sign.isMinus, text) := by
  cases sign with
  | plus => rfl
  | minus => rfl
  | absent =>
      cases text with
      | nil => rfl
      | cons c rest =>
          obtain ⟨notMinus, notPlus⟩ := unsigned c rfl
          change takeSign (c :: rest) = (false, c :: rest)
          unfold takeSign
          split
          · rename_i same
            exact absurd (List.cons.inj same).1 notMinus
          · rename_i same
            exact absurd (List.cons.inj same).1 notPlus
          · rfl

theorem exists_sign (text : List Char) :
    ∃ sign : LeadingSign, text = sign.chars ++ (takeSign text).2 := by
  unfold takeSign
  split
  · exact ⟨.minus, rfl⟩
  · exact ⟨.plus, rfl⟩
  · exact ⟨.absent, rfl⟩

theorem notSign_of_isDigit {c : Char} (digit : c.isDigit = true) : c ≠ '-' ∧ c ≠ '+' := by
  constructor
  · rintro rfl
    exact absurd digit (by decide)
  · rintro rfl
    exact absurd digit (by decide)

theorem natural?_eq_some_iff {text : List Char} {n : Nat} :
    natural? text = some n ↔ text ≠ [] ∧ (∀ c ∈ text, c.isDigit = true) ∧
      Nat.ofDigitChars 10 text 0 = n := by
  unfold natural?
  split
  · rename_i digits
    rw [Option.some_inj]
    exact ⟨fun same => ⟨digits.1, List.all_eq_true.mp digits.2, same⟩, fun same => same.2.2⟩
  · rename_i other
    refine iff_of_false nofun ?_
    rintro ⟨nonempty, digits, _⟩
    exact other ⟨nonempty, List.all_eq_true.mpr digits⟩

theorem exponent?_chars (exponent : WrittenExponent) :
    exponent? exponent.chars = some exponent.power := by
  obtain ⟨mark, sign, digits, isMark, nonempty, allDigits⟩ := exponent
  have unsigned : ∀ c ∈ digits.head?, c ≠ '-' ∧ c ≠ '+' :=
    fun c member => notSign_of_isDigit (allDigits c (List.mem_of_mem_head? member))
  change exponent? (mark :: (sign.chars ++ digits)) = _
  rw [exponent?, if_pos isMark, takeSign_append sign unsigned]
  simp only [natural?_of_digits nonempty allDigits]
  rfl

theorem exists_exponent {text : List Char} {power : ℤ} (read : exponent? text = some power) :
    ∃ exponent : Option WrittenExponent, text = exponent.elim [] WrittenExponent.chars := by
  cases text with
  | nil => exact ⟨none, rfl⟩
  | cons mark rest =>
      rw [exponent?] at read
      split at read
      · rename_i isMark
        obtain ⟨_, cast, _⟩ := Option.map_eq_some_iff.mp read
        obtain ⟨n, natural, _⟩ := Option.bind_eq_some_iff.mp cast
        obtain ⟨nonempty, digits, _⟩ := natural?_eq_some_iff.mp natural
        obtain ⟨sign, whole⟩ := exists_sign rest
        exact ⟨some ⟨mark, sign, (takeSign rest).2, isMark, nonempty, digits⟩,
          congrArg (mark :: ·) whole⟩
      · cases read

theorem takeFraction_append {fraction : Option (List Char)} {rest : List Char}
    (digits : ∀ c ∈ fraction.getD [], c.isDigit = true)
    (other : ∀ c ∈ rest.head?, c.isDigit = false ∧ c ≠ '.') :
    takeFraction (fraction.elim [] ('.' :: ·) ++ rest) = (fraction.getD [], rest) := by
  cases fraction with
  | none =>
      change takeFraction rest = ([], rest)
      unfold takeFraction
      split
      · exact absurd rfl (other '.' rfl).2
      · rfl
  | some behind =>
      obtain ⟨taken, dropped⟩ := takeWhile_run digits fun c member => (other c member).1
      change ((behind ++ rest).takeWhile Char.isDigit, (behind ++ rest).dropWhile Char.isDigit) = _
      exact Prod.ext taken dropped

theorem exists_fraction (text : List Char) :
    ∃ fraction : Option (List Char), (takeFraction text).1 = fraction.getD [] ∧
      text = fraction.elim [] ('.' :: ·) ++ (takeFraction text).2 := by
  unfold takeFraction
  split
  · rename_i rest
    refine ⟨some (rest.takeWhile Char.isDigit), rfl, ?_⟩
    exact congrArg ('.' :: ·) List.takeWhile_append_dropWhile.symm
  · exact ⟨none, rfl, rfl⟩

theorem isDigit_takeFraction {text : List Char} :
    ∀ c ∈ (takeFraction text).1, c.isDigit = true := by
  unfold takeFraction
  split
  · exact fun c member => List.mem_takeWhile_imp member
  · exact nofun

end Numeral

namespace WrittenNumeral

open Numeral

variable (written : WrittenNumeral)

theorem head?_exponentChars :
    ∀ c ∈ written.exponentChars.head?, c.isDigit = false ∧ c ≠ '.' := by
  intro c member
  cases exponent : written.exponent with
  | none =>
      rw [exponentChars, exponent] at member
      cases member
  | some part =>
      rw [exponentChars, exponent] at member
      obtain rfl := Option.some.inj member
      rcases part.isMark with same | same <;> rw [same] <;> decide

theorem head?_tail : ∀ c ∈ written.tail.head?, c.isDigit = false := by
  intro c member
  cases fraction : written.fraction with
  | none =>
      rw [tail, fraction] at member
      exact (written.head?_exponentChars c member).1
  | some digits =>
      rw [tail, fraction] at member
      obtain rfl := Option.some.inj member
      decide

theorem head?_body : ∀ c ∈ written.body.head?, c ≠ '-' ∧ c ≠ '+' := by
  intro c member
  cases whole : written.whole with
  | cons first rest =>
      rw [body, whole] at member
      obtain rfl := Option.some.inj member
      exact notSign_of_isDigit (written.wholeDigits first (by simp [whole]))
  | nil =>
      have nonempty := written.nonempty
      cases fraction : written.fraction with
      | none => simp [whole, fraction] at nonempty
      | some digits =>
          rw [body, whole, tail, fraction] at member
          obtain rfl := Option.some.inj member
          decide

theorem exponent?_exponentChars :
    exponent? written.exponentChars = some (written.exponent.elim 0 WrittenExponent.power) := by
  rw [exponentChars]
  cases written.exponent with
  | none => rfl
  | some part => exact exponent?_chars part

theorem read?_chars :
    ∃ magnitude, read? written.chars = some ⟨written.sign.isMinus, magnitude⟩ ∧
      magnitude.value = written.size := by
  obtain ⟨taken, dropped⟩ := takeWhile_run written.wholeDigits written.head?_tail
  have fraction := takeFraction_append written.fractionDigits written.head?_exponentChars
  have digits : ∀ c ∈ written.whole ++ written.fraction.getD [], c.isDigit = true :=
    List.forall_mem_append.mpr ⟨written.wholeDigits, written.fractionDigits⟩
  refine ⟨⟨Nat.ofDigitChars 10 (written.whole ++ written.fraction.getD []) 0,
    written.exponent.elim 0 WrittenExponent.power - (written.fraction.getD []).length⟩, ?_, ?_⟩
  · have magnitude : magnitude? written.body =
        some ⟨Nat.ofDigitChars 10 (written.whole ++ written.fraction.getD []) 0,
          written.exponent.elim 0 WrittenExponent.power - (written.fraction.getD []).length⟩ := by
      rw [magnitude?, body, taken, dropped, tail, fraction]
      simp only [natural?_of_digits written.nonempty digits, written.exponent?_exponentChars]
      rfl
    rw [read?, chars, takeSign_append written.sign written.head?_body]
    simp only [magnitude, Option.map_some]
  · rw [Decimal.value, size, pointedValue_eq_div, zpow_sub₀ (by norm_num), zpow_natCast]
    field_simp

theorem exists_chars {text : List Char} {numeral : Numeral} (read : read? text = some numeral) :
    ∃ written : WrittenNumeral, written.chars = text := by
  obtain ⟨sign, signed⟩ := exists_sign text
  change (magnitude? (takeSign text).2).map _ = some numeral at read
  obtain ⟨magnitude, readMagnitude, _⟩ := Option.map_eq_some_iff.mp read
  generalize (takeSign text).2 = body at signed readMagnitude
  obtain ⟨fraction, taken, behind⟩ := exists_fraction (body.dropWhile Char.isDigit)
  have fractionDigits := @isDigit_takeFraction (body.dropWhile Char.isDigit)
  change (natural? (body.takeWhile Char.isDigit ++
    (takeFraction (body.dropWhile Char.isDigit)).1)).bind (fun digits =>
      (exponent? (takeFraction (body.dropWhile Char.isDigit)).2).bind _) = some magnitude
    at readMagnitude
  obtain ⟨n, natural, readExponent⟩ := Option.bind_eq_some_iff.mp readMagnitude
  obtain ⟨power, exponentRead, _⟩ := Option.bind_eq_some_iff.mp readExponent
  obtain ⟨exponent, rest⟩ := exists_exponent exponentRead
  obtain ⟨nonempty, _, _⟩ := natural?_eq_some_iff.mp natural
  rw [taken] at nonempty fractionDigits
  refine ⟨⟨sign, body.takeWhile Char.isDigit, fraction, exponent,
    fun c member => List.mem_takeWhile_imp member, fractionDigits, nonempty⟩, ?_⟩
  change sign.chars ++ (body.takeWhile Char.isDigit ++ (fraction.elim [] ('.' :: ·) ++
    exponent.elim [] WrittenExponent.chars)) = text
  rw [← rest, ← behind, List.takeWhile_append_dropWhile, ← signed]

end WrittenNumeral

/-! ## Plain numbers -/

def isNumeralChar (c : Char) : Bool :=
  c.isDigit || c = '.' || c = 'e' || c = 'E' || c = '-' || c = '+'

/-- The number of a text that is looked through first and then read as a datum. -/
def screenedNumber? (text : List Char) : Option Float :=
  let trimmed := trim text
  if trimmed.isEmpty then none
  else
    let body := (Numeral.takeSign trimmed).2
    if !body.isEmpty && body.any Char.isDigit && body.all isNumeralChar then
      (number? trimmed).filter Float.isFinite
    else none

theorem isNumeralChar_of_isDigit {c : Char} (digit : c.isDigit = true) :
    isNumeralChar c = true := by
  simp [isNumeralChar, digit]

theorem LeadingSign.isNumeralChar_chars (sign : LeadingSign) :
    ∀ c ∈ sign.chars, isNumeralChar c = true := by
  intro c member
  cases sign with
  | absent => cases member
  | plus =>
      rw [List.mem_singleton.mp member]
      decide
  | minus =>
      rw [List.mem_singleton.mp member]
      decide

namespace WrittenNumeral

variable (written : WrittenNumeral)

theorem isNumeralChar_exponentChars : ∀ c ∈ written.exponentChars, isNumeralChar c = true := by
  rw [exponentChars]
  cases written.exponent with
  | none => exact nofun
  | some part =>
      refine List.forall_mem_cons.mpr ⟨?_, List.forall_mem_append.mpr ⟨?_, ?_⟩⟩
      · rcases part.isMark with same | same <;> rw [same] <;> decide
      · exact part.sign.isNumeralChar_chars
      · exact fun c member => isNumeralChar_of_isDigit (part.allDigits c member)

theorem isNumeralChar_body : ∀ c ∈ written.body, isNumeralChar c = true := by
  refine List.forall_mem_append.mpr ⟨?_, List.forall_mem_append.mpr
    ⟨?_, written.isNumeralChar_exponentChars⟩⟩
  · exact fun c member => isNumeralChar_of_isDigit (written.wholeDigits c member)
  · have digits := written.fractionDigits
    cases fraction : written.fraction with
    | none => exact nofun
    | some behind =>
        rw [fraction] at digits
        refine List.forall_mem_cons.mpr ⟨by decide, fun c member => ?_⟩
        exact isNumeralChar_of_isDigit (digits c member)

theorem exists_digit : ∃ c ∈ written.body, c.isDigit = true := by
  obtain ⟨c, member⟩ := List.exists_mem_of_ne_nil _ written.nonempty
  rcases List.mem_append.mp member with before | behind
  · exact ⟨c, List.mem_append_left _ before, written.wholeDigits c before⟩
  · refine ⟨c, List.mem_append_right _ (List.mem_append_left _ ?_), written.fractionDigits c behind⟩
    cases fraction : written.fraction with
    | none =>
        rw [fraction] at behind
        cases behind
    | some digits =>
        rw [fraction] at behind
        exact List.mem_cons_of_mem _ behind

end WrittenNumeral

/-- Looking first rules out the names of what is not finite, and no numeral. -/
theorem plainNumber?_eq_screenedNumber? (text : List Char) :
    plainNumber? text = screenedNumber? text := by
  have same : (number? (trim text)).filter Float.isFinite = plainNumber? text := by
    ext x
    rw [plainNumber?, Option.filter_eq_some_iff, Option.filter_eq_some_iff]
    exact and_congr_left number?_eq_some_iff
  rw [screenedNumber?]
  cases read : Numeral.read? (trim text) with
  | none =>
      have unread : plainNumber? text = none := by
        rw [plainNumber?, read]
        rfl
      rw [same, unread]
      simp
  | some numeral =>
      obtain ⟨written, chars⟩ := WrittenNumeral.exists_chars read
      obtain ⟨c, member, digit⟩ := written.exists_digit
      have body : (Numeral.takeSign (trim text)).2 = written.body := by
        rw [← chars, WrittenNumeral.chars, Numeral.takeSign_append _ written.head?_body]
      have nonempty : trim text ≠ [] := by
        rw [← chars]
        exact List.append_ne_nil_of_right_ne_nil _ (List.ne_nil_of_mem member)
      have passes : (!written.body.isEmpty && written.body.any Char.isDigit &&
          written.body.all isNumeralChar) = true := by
        simp only [Bool.and_eq_true, Bool.not_eq_true', List.isEmpty_eq_false_iff, List.any_eq_true,
          List.all_eq_true]
        exact ⟨⟨List.ne_nil_of_mem member, c, member, digit⟩, written.isNumeralChar_body⟩
      rw [if_neg (by rwa [List.isEmpty_iff]), body, if_pos passes, same]

/-- A text is a plain number just if a numeral is written in it, with blanks around it or none, and
a finite number is nearest to the value of the numeral; that number is the one. -/
theorem plain_numbers_exactly (text : List Char) (x : Float) :
    plainNumber? text = screenedNumber? text ∧
      (plainNumber? text = some x ↔ ∃ written : WrittenNumeral, written.chars = trim text ∧
        IsNearestNumber written.sign.isMinus written.size x) := by
  refine ⟨plainNumber?_eq_screenedNumber? text, ?_⟩
  have number (written : WrittenNumeral) (chars : written.chars = trim text) :
      plainNumber? text = some x ↔ IsNearestNumber written.sign.isMinus written.size x := by
    obtain ⟨magnitude, read, value⟩ := written.read?_chars
    rw [← rounding_eq_iff (value ▸ magnitude.value_nonneg), plainNumber?, ← chars, read,
      Option.filter_eq_some_iff, Option.map_some, Option.some_inj, Numeral.toFloat,
      magnitude.toFloat_eq_rounding, value]
  constructor
  · intro found
    obtain ⟨mapped, _⟩ := Option.filter_eq_some_iff.mp found
    obtain ⟨numeral, read, _⟩ := Option.map_eq_some_iff.mp mapped
    obtain ⟨written, chars⟩ := WrittenNumeral.exists_chars read
    exact ⟨written, chars, (number written chars).mp found⟩
  · rintro ⟨written, chars, near⟩
    exact (number written chars).mpr near

/-- Digits may be missing on one side of a point, but not on both, and not behind an exponent mark;
and no name is a plain number. -/
example :
    [" 7. ", "+.5", "-1E-3", "00e+00"].all (fun text => (plainNumber? text.toList).isSome) ∧
      ["", "+", ".", "1.2.3", "e5", "1e", "1e+", "--1", "1 2", "inf", "NaN", "1e400"].all
        (fun text => (plainNumber? text.toList).isNone) := by
  decide +kernel

end Worksheet
