import Mathlib
import Worksheet.Proofs.Aggregate.Order

/-!
# The range of the median

The median is one of the numbers or the mean of two of them. The two are added before they are
halved, so for two great numbers of one sign the sum is infinite although their mean is not. Apart
from that the median is finite and lies between the least and the greatest number.
-/

set_option autoImplicit false

namespace Worksheet

namespace Aggregate

variable {numbers : List Float}

def lowerMiddle (numbers : List Float) : Float :=
  (sorted numbers).getD ((numbers.length - 1) / 2) 0.0

def upperMiddle (numbers : List Float) : Float :=
  (sorted numbers).getD (numbers.length / 2) 0.0

theorem getD_sorted_mem {index : Nat} (inside : index < numbers.length) :
    (sorted numbers).getD index 0.0 ∈ numbers := by
  have inSorted : index < (sorted numbers).length := (perm_sorted numbers).length_eq ▸ inside
  rw [List.getD_eq_getElem _ _ inSorted]
  exact (perm_sorted numbers).mem_iff.mp (List.getElem_mem inSorted)

theorem lowerMiddle_mem (nonempty : numbers ≠ []) : lowerMiddle numbers ∈ numbers := by
  have positive := List.length_pos_iff.mpr nonempty
  exact getD_sorted_mem (by omega)

theorem upperMiddle_mem (nonempty : numbers ≠ []) : upperMiddle numbers ∈ numbers := by
  have positive := List.length_pos_iff.mpr nonempty
  exact getD_sorted_mem (by omega)

theorem median_of_odd (odd : numbers.length % 2 = 1) : median numbers = upperMiddle numbers := by
  have nonempty : numbers.isEmpty = false := by
    cases numbers with
    | nil => cases odd
    | cons first rest => rfl
  rw [median, nonempty, if_neg Bool.false_ne_true, if_neg (by omega)]
  rfl

theorem median_of_even (nonempty : numbers ≠ []) (even : numbers.length % 2 = 0) :
    median numbers = (lowerMiddle numbers + upperMiddle numbers) / 2.0 := by
  have positive := List.length_pos_iff.mpr nonempty
  have lower : numbers.length / 2 - 1 = (numbers.length - 1) / 2 := by omega
  rw [median, List.isEmpty_eq_false_iff.mpr nonempty, if_neg Bool.false_ne_true, if_pos even, lower]
  rfl

/-- There are two numbers in the middle, and their sum is too great for a number. -/
def MiddlesOverflow (numbers : List Float) : Prop :=
  numbers.length % 2 = 0 ∧
    2 ^ (1024 : ℤ) - 2 ^ (970 : ℤ) ≤
      |rational (lowerMiddle numbers) + rational (upperMiddle numbers)|

section

variable (nonempty : numbers ≠ []) (finite : ∀ x ∈ numbers, x.isFinite = true)
include nonempty finite

theorem isFinite_median_iff : (median numbers).isFinite = true ↔ ¬ MiddlesOverflow numbers := by
  have lower := finite _ (lowerMiddle_mem nonempty)
  have upper := finite _ (upperMiddle_mem nonempty)
  unfold MiddlesOverflow
  rcases Nat.mod_two_eq_zero_or_one numbers.length with even | odd
  · have half : ((lowerMiddle numbers + upperMiddle numbers) / 2.0).isFinite = true ↔
        (lowerMiddle numbers + upperMiddle numbers).isFinite = true :=
      ⟨isFinite_of_isFinite_div (by decide), fun sum => (rational_half sum).1⟩
    rw [median_of_even nonempty even, half, isFinite_add_iff lower upper]
    simp only [even, true_and, not_le]
  · rw [median_of_odd odd]
    simp [odd, upper]

theorem median_between (finiteMedian : (median numbers).isFinite = true) {low high : Float}
    (least : ∀ x ∈ numbers, rational low ≤ rational x)
    (greatest : ∀ x ∈ numbers, rational x ≤ rational high) :
    rational low ≤ rational (median numbers) ∧ rational (median numbers) ≤ rational high := by
  have lower := lowerMiddle_mem nonempty
  have upper := upperMiddle_mem nonempty
  rcases Nat.mod_two_eq_zero_or_one numbers.length with even | odd
  · rw [median_of_even nonempty even] at finiteMedian ⊢
    exact mean_between (finite _ lower) (finite _ upper)
      (isFinite_of_isFinite_div (by decide) finiteMedian) (least _ lower) (least _ upper)
      (greatest _ lower) (greatest _ upper)
  · rw [median_of_odd odd]
    exact ⟨least _ upper, greatest _ upper⟩

end

end Aggregate

theorem Registry.call_median {settings : Settings} {name : List Char}
    (named : capitals name = "MEDIAN".toList) {arguments : List (List Char)} {numbers : List Float}
    (gathered : aggregateNumbers arguments = .ok numbers) :
    standard.call settings name arguments =
      Expression.requireFinite (.invalidExpression (.nonFiniteResult "MEDIAN".toList))
        (.number (Aggregate.median numbers)) :=
  call_of_gathered (@List.getElem_mem _ Library.functions 5 (by decide)) rfl named gathered

/-- The median of finite numbers is finite and lies between the least and the greatest of them, and
`MEDIAN` succeeds with it, unless the sum of the two middle numbers is too great. Then it is
infinite and `MEDIAN` fails. -/
theorem Aggregate.median_spec {numbers : List Float} (nonempty : numbers ≠ [])
    (finite : ∀ x ∈ numbers, x.isFinite = true) :
    (¬ MiddlesOverflow numbers → (median numbers).isFinite = true ∧ ∀ settings,
      (∃ low high, extremum "MIN" smaller numbers settings = .ok (.number low) ∧
        extremum "MAX" larger numbers settings = .ok (.number high) ∧
          low ≤ median numbers ∧ median numbers ≤ high) ∧
        ∀ name arguments, capitals name = "MEDIAN".toList →
          aggregateNumbers arguments = .ok numbers →
            Registry.standard.call settings name arguments = .ok (.number (median numbers))) ∧
      (MiddlesOverflow numbers → (median numbers).isFinite = false ∧
        ∀ settings name arguments, capitals name = "MEDIAN".toList →
          aggregateNumbers arguments = .ok numbers →
            Registry.standard.call settings name arguments =
              .error (.invalidExpression (.nonFiniteResult "MEDIAN".toList))) := by
  have finiteIff := isFinite_median_iff nonempty finite
  constructor
  · intro fits
    have finiteMedian := finiteIff.mpr fits
    refine ⟨finiteMedian, fun settings => ⟨?_, fun name arguments named gathered => ?_⟩⟩
    · obtain ⟨low, lowMember, least, below⟩ :=
        exists_extremum picks_smaller "MIN" nonempty finite settings
      obtain ⟨high, highMember, greatest, above⟩ :=
        exists_extremum picks_larger "MAX" nonempty finite settings
      obtain ⟨lowBound, highBound⟩ := median_between nonempty finite finiteMedian below above
      exact ⟨low, high, least, greatest,
        (le_iff_rational (finite low lowMember) finiteMedian).mpr lowBound,
        (le_iff_rational finiteMedian (finite high highMember)).mpr highBound⟩
    · rw [Registry.call_median named gathered, Expression.requireFinite, if_pos finiteMedian]
  · intro overflow
    have infinite : ¬ (median numbers).isFinite = true := fun finiteMedian =>
      finiteIff.mp finiteMedian overflow
    refine ⟨Bool.eq_false_iff.mpr infinite, fun settings name arguments named gathered => ?_⟩
    rw [Registry.call_median named gathered, Expression.requireFinite, if_neg infinite]

/-- A great and a small number in the middle have their mean, two great ones overflow. -/
theorem Aggregate.median_spec_of_great_numbers :
    let mixed : List Float := [1e308, 0.5, -1e308, 1.5e308]
    let great : List Float := [1e308, 1e308]
    Registry.standard.call {} "Median".toList (mixed.map numberLiteral) = .ok (.number 5e307) ∧
      Registry.standard.call {} "Median".toList (great.map numberLiteral) =
        .error (.invalidExpression (.nonFiniteResult "MEDIAN".toList)) := by
  intro mixed great
  have mean : median mixed = 5e307 := by
    have inOrder : sorted mixed = [-1e308, 0.5, 1e308, 1.5e308] :=
      sorted_eq (by decide +kernel) (by decide +kernel)
    rw [median, inOrder]
    decide +kernel
  have infinite : (median great).isFinite = false := by
    rw [median, sorted_eq (List.Perm.refl _) (by decide +kernel)]
    decide +kernel
  have finite : ∀ x ∈ mixed, x.isFinite = true := by decide +kernel
  have finite' : ∀ x ∈ great, x.isFinite = true := by decide +kernel
  have fits : ¬ MiddlesOverflow mixed :=
    (isFinite_median_iff (by simp [mixed]) finite).mp (by rw [mean]; decide +kernel)
  have overflows : MiddlesOverflow great :=
    not_not.mp ((isFinite_median_iff (by simp [great]) finite').not.mp (by simp [infinite]))
  obtain ⟨_, succeeds⟩ := ((Aggregate.median_spec (by simp [mixed]) finite).1 fits).2 {}
  have fails := ((Aggregate.median_spec (by simp [great]) finite').2 overflows).2 {}
  rw [mean] at succeeds
  exact ⟨succeeds _ _ (by decide) (by decide +kernel), fails _ _ (by decide) (by decide +kernel)⟩

/-- Two finite numbers are equal, and still their median is infinite. -/
theorem Aggregate.median_overflows :
    let numbers : List Float := [1e308, 1e308]
    (∀ x ∈ numbers, x.isFinite = true) ∧ (median numbers).isFinite = false ∧
      Registry.standard.call {} "MEDIAN".toList (numbers.map numberLiteral) =
        .error (.invalidExpression (.nonFiniteResult "MEDIAN".toList)) := by
  intro numbers
  have infinite : (median numbers).isFinite = false := by
    rw [median, sorted_eq (List.Perm.refl _) (by decide +kernel)]
    decide +kernel
  have gathered : aggregateNumbers (numbers.map numberLiteral) = .ok numbers := by decide +kernel
  refine ⟨by decide +kernel, infinite, ?_⟩
  rw [Registry.call_median (by decide) gathered, Expression.requireFinite, infinite]
  rfl

end Worksheet
