import Mathlib
import Worksheet.Proofs.Aggregate.Evaluation
import Worksheet.Proofs.Formula.Finite
import Worksheet.Proofs.Number.Order

/-!
# Aggregates that ignore the order of their arguments

The least and the greatest number, the count and the median depend on the numbers alone, not on the
order in which they come. A fold that picks one of two numbers ends at one that wins against all of
them, and two such winners are equal. Sorting by the place of a number leaves one list, because no
two numbers have the same place.
-/

set_option autoImplicit false

namespace Worksheet

namespace Aggregate

/-- The function picks one of two finite numbers, and the one that it picks comes before both. -/
structure Picks (pick : Float → Float → Float) (before : ℚ → ℚ → Prop) : Prop where
  refl : ∀ q, before q q
  trans : ∀ {p q r}, before p q → before q r → before p r
  antisymm : ∀ {p q}, before p q → before q p → p = q
  either : ∀ a b, pick a b = a ∨ pick a b = b
  first : ∀ {a b : Float}, a.isFinite = true → b.isFinite = true →
    before (rational (pick a b)) (rational a)
  second : ∀ {a b : Float}, a.isFinite = true → b.isFinite = true →
    before (rational (pick a b)) (rational b)

theorem picks_smaller : Picks smaller (· ≤ ·) where
  refl := le_refl
  trans := le_trans
  antisymm := le_antisymm
  either a b := by
    unfold smaller
    split
    · exact .inr rfl
    · exact .inl rfl
  first {a b} finite finite' := by
    unfold smaller
    split
    · rename_i below
      exact ((lt_iff_rational finite' finite).mp below).le
    · exact le_rfl
  second {a b} finite finite' := by
    unfold smaller
    split
    · exact le_rfl
    · rename_i notBelow
      exact not_lt.mp ((lt_iff_rational finite' finite).not.mp notBelow)

theorem picks_larger : Picks larger (· ≥ ·) where
  refl := le_refl
  trans := ge_trans
  antisymm above below := le_antisymm below above
  either a b := by
    unfold larger
    split
    · exact .inr rfl
    · exact .inl rfl
  first {a b} finite finite' := by
    unfold larger
    split
    · rename_i below
      exact ((lt_iff_rational finite finite').mp below).le
    · exact le_rfl
  second {a b} finite finite' := by
    unfold larger
    split
    · exact le_rfl
    · rename_i notBelow
      exact not_lt.mp ((lt_iff_rational finite finite').not.mp notBelow)

section

variable {pick : Float → Float → Float} {before : ℚ → ℚ → Prop} (picks : Picks pick before)
include picks

theorem foldl_pick {first : Float} {rest : List Float}
    (finite : ∀ x ∈ first :: rest, x.isFinite = true) :
    rest.foldl pick first ∈ first :: rest ∧
      ∀ x ∈ first :: rest, before (rational (rest.foldl pick first)) (rational x) := by
  -- The number that was picked so far stands in front, so the induction speaks of every first one.
  induction rest generalizing first with
  | nil => exact ⟨List.mem_cons_self, by simpa using picks.refl _⟩
  | cons second rest ih =>
      obtain ⟨firstFinite, others⟩ := List.forall_mem_cons.mp finite
      obtain ⟨secondFinite, restFinite⟩ := List.forall_mem_cons.mp others
      have picked : pick first second = first ∨ pick first second = second :=
        picks.either first second
      have pickedFinite : (pick first second).isFinite = true := by
        rcases picked with same | same <;> rw [same] <;> assumption
      obtain ⟨member, wins⟩ := ih (List.forall_mem_cons.mpr ⟨pickedFinite, restFinite⟩)
      obtain ⟨winsPicked, winsRest⟩ := List.forall_mem_cons.mp wins
      rw [List.foldl_cons]
      constructor
      · rcases List.mem_cons.mp member with same | inRest
        · rw [same]
          rcases picked with same | same <;> rw [same] <;> simp
        · exact List.mem_cons_of_mem _ (List.mem_cons_of_mem _ inRest)
      · have winsFirst := picks.trans winsPicked (picks.first firstFinite secondFinite)
        have winsSecond := picks.trans winsPicked (picks.second firstFinite secondFinite)
        exact List.forall_mem_cons.mpr
          ⟨winsFirst, List.forall_mem_cons.mpr ⟨winsSecond, winsRest⟩⟩

theorem exists_extremum (name : String) {numbers : List Float} (nonempty : numbers ≠ [])
    (finite : ∀ x ∈ numbers, x.isFinite = true) (settings : Settings) :
    ∃ x ∈ numbers, extremum name pick numbers settings = .ok (.number x) ∧
      ∀ y ∈ numbers, before (rational x) (rational y) := by
  obtain ⟨first, rest, rfl⟩ := List.exists_cons_of_ne_nil nonempty
  obtain ⟨member, wins⟩ := foldl_pick picks finite
  exact ⟨_, member, rfl, wins⟩

/-- The extremes of the same numbers in another order are equal. -/
theorem extremum_perm (name : String) {numbers others : List Float} (permuted : numbers.Perm others)
    (finite : ∀ x ∈ numbers, x.isFinite = true) (settings : Settings) :
    (∃ x y, extremum name pick numbers settings = .ok (.number x) ∧
        extremum name pick others settings = .ok (.number y) ∧ x.isFinite = true ∧
          y.isFinite = true ∧ rational x = rational y) ∨
      ∃ error, extremum name pick numbers settings = .error error ∧
        extremum name pick others settings = .error error := by
  by_cases nonempty : numbers = []
  · subst nonempty
    obtain rfl := permuted.nil_eq
    cases empty : settings.emptyExtremum with
    | zero =>
        have zero : extremum name pick [] settings = .ok (.number 0.0) := by
          simp [extremum, empty]
        exact .inl ⟨_, _, zero, zero, by decide, by decide, rfl⟩
    | error =>
        have failed : extremum name pick [] settings =
            .error (.invalidExpression (.emptySet name.toList)) := by
          simp [extremum, empty]
        exact .inr ⟨_, failed, failed⟩
  · have finiteOthers : ∀ x ∈ others, x.isFinite = true :=
      fun x member => finite x (permuted.mem_iff.mpr member)
    have nonempty' : others ≠ [] := fun none => nonempty (none ▸ permuted).eq_nil
    obtain ⟨x, member, result, wins⟩ := exists_extremum picks name nonempty finite settings
    obtain ⟨y, member', result', wins'⟩ :=
      exists_extremum picks name nonempty' finiteOthers settings
    exact .inl ⟨x, y, result, result', finite x member, finiteOthers y member',
      picks.antisymm (wins y (permuted.mem_iff.mpr member')) (wins' x (permuted.mem_iff.mp member))⟩

end

theorem orderKey_injective : Function.Injective orderKey := by
  intro x y same
  have bits : x.toBits.toNat = y.toBits.toNat := by
    unfold orderKey isNegative at same
    simp only [decide_eq_true_eq] at same
    split at same <;> split at same <;> omega
  have words : x.toBits = y.toBits := UInt64.toNat_inj.mp bits
  rw [← ofBits_toBits x, words, ofBits_toBits]

theorem pairwise_sorted (numbers : List Float) :
    (sorted numbers).Pairwise fun a b => orderKey a ≤ orderKey b := by
  have ordered := @List.pairwise_mergeSort Float (fun a b => orderKey a ≤ orderKey b)
    (fun a b c first second => ?_) (fun a b => ?_) numbers
  · exact ordered.imp of_decide_eq_true
  · exact decide_eq_true ((of_decide_eq_true first).trans (of_decide_eq_true second))
  · simpa using Int.le_total (orderKey a) (orderKey b)

theorem perm_sorted (numbers : List Float) : (sorted numbers).Perm numbers :=
  List.mergeSort_perm _ _

theorem sorted_eq {numbers inOrder : List Float} (permuted : numbers.Perm inOrder)
    (ordered : inOrder.Pairwise fun a b => orderKey a ≤ orderKey b) : sorted numbers = inOrder :=
  ((perm_sorted numbers).trans permuted).eq_of_pairwise
    (fun _ _ _ _ below above => orderKey_injective (Int.le_antisymm below above))
    (pairwise_sorted numbers) ordered

theorem median_eq_of_perm {numbers others : List Float} (permuted : numbers.Perm others) :
    median numbers = median others := by
  unfold median
  rw [sorted_eq (permuted.trans (perm_sorted others).symm) (pairwise_sorted others),
    permuted.length_eq, permuted.isEmpty_eq]

end Aggregate

def argumentNumber? (argument : List Char) : Option Float :=
  if isMissing argument then none
  else (Expression.valueOf argument).toOption.bind Value.number?

/-- An argument that no aggregate refuses: it is missing, or it has a value. -/
def IsAccepted (argument : List Char) : Prop :=
  isMissing argument = true ∨ ∃ value, Expression.valueOf argument = .ok value

theorem aggregateNumbers_of_accepted {arguments : List (List Char)}
    (accepted : ∀ argument ∈ arguments, IsAccepted argument) :
    aggregateNumbers arguments = .ok (arguments.filterMap argumentNumber?) := by
  induction arguments with
  | nil => rfl
  | cons first rest ih =>
      obtain ⟨firstAccepted, restAccepted⟩ := List.forall_mem_cons.mp accepted
      obtain ⟨values, evaluated, same⟩ := Outcome.bind_eq_ok.mp (ih restAccepted)
      have restNumbers := Except.ok.inj same
      unfold aggregateNumbers
      rcases Bool.eq_false_or_eq_true (isMissing first) with missing | present
      · rw [List.filter_cons_of_neg (by simp [missing]), evaluated, Outcome.ok_bind,
          List.filterMap_cons_none (by simp [argumentNumber?, missing]), ← restNumbers]
        rfl
      · obtain ⟨value, read⟩ := firstAccepted.resolve_left (by simp [present])
        have number : argumentNumber? first = value.number? := by
          simp [argumentNumber?, present, read, Except.toOption]
        rw [List.filter_cons_of_pos (by simp [present]), List.mapM_cons, read, Outcome.ok_bind,
          evaluated, List.filterMap_cons, number, ← restNumbers]
        exact congrArg Except.ok List.filterMap_cons

theorem isFinite_of_mem_argumentNumbers {arguments : List (List Char)}
    (accepted : ∀ argument ∈ arguments, IsAccepted argument) :
    ∀ x ∈ arguments.filterMap argumentNumber?, x.isFinite = true :=
  isFinite_of_aggregateNumbers (aggregateNumbers_of_accepted accepted)

/-! ## Calls -/

theorem Registry.call_capitals (registry : Registry) (settings : Settings) (name : List Char)
    (arguments : List (List Char)) :
    registry.call settings (capitals name) arguments = registry.call settings name arguments := by
  rw [Registry.call, Registry.call, capitals_capitals]

theorem Registry.call_of_gathered {settings : Settings} {function : Function}
    (member : function ∈ Library.functions)
    {run : List Float → Settings → Except FormulaError Value}
    (isAggregate : function.body = .aggregate run) {name : List Char}
    (named : capitals name = function.name) {arguments : List (List Char)} {numbers : List Float}
    (gathered : aggregateNumbers arguments = .ok numbers) :
    standard.call settings name arguments = run numbers settings >>=
      Expression.requireFinite (.invalidExpression (.nonFiniteResult function.name)) := by
  rw [← call_capitals, named, call_of_apply member isAggregate, Body.apply_aggregate, gathered,
    Outcome.ok_bind]

/-- Two outcomes are equal numbers, where the sign of a zero does not count, or the same error. -/
def SameNumber (first second : Except FormulaError Value) : Prop :=
  (∃ x y, first = .ok (.number x) ∧ second = .ok (.number y) ∧ (x == y) = true) ∨
    ∃ error, first = .error error ∧ second = .error error

theorem sameNumber_requireFinite (error : FormulaError) (x : Float) :
    SameNumber (Expression.requireFinite error (.number x))
      (Expression.requireFinite error (.number x)) := by
  by_cases finite : x.isFinite = true
  · exact .inl ⟨x, x, by simp [Expression.requireFinite, finite],
      by simp [Expression.requireFinite, finite], (beq_iff_rational finite finite).mpr rfl⟩
  · exact .inr ⟨error, by simp [Expression.requireFinite, finite],
      by simp [Expression.requireFinite, finite]⟩

section

variable {settings : Settings} {arguments others : List (List Char)}
  (accepted : ∀ argument ∈ arguments, IsAccepted argument) (permuted : arguments.Perm others)
include accepted permuted

theorem Registry.call_perm_of_eq {name called : List Char} {compute : List Float → Float}
    {description : String}
    (member : ⟨name, .any, .aggregate fun numbers _ => .ok (.number (compute numbers)),
      description⟩ ∈ Library.functions)
    (same : ∀ {numbers others}, List.Perm numbers others → compute numbers = compute others)
    (named : capitals called = name) :
    SameNumber (standard.call settings called arguments)
      (standard.call settings called others) := by
  have acceptedOthers : ∀ argument ∈ others, IsAccepted argument :=
    fun argument inside => accepted argument (permuted.mem_iff.mpr inside)
  rw [call_of_gathered member rfl named (aggregateNumbers_of_accepted accepted),
    call_of_gathered member rfl named (aggregateNumbers_of_accepted acceptedOthers),
    same (permuted.filterMap argumentNumber?)]
  exact sameNumber_requireFinite _ _

/-- The extreme number among arguments is the same in any order, and it is one of the numbers and
comes before all of them. -/
theorem Registry.call_perm_of_picks {pick : Float → Float → Float} {before : ℚ → ℚ → Prop}
    (picks : Aggregate.Picks pick before) {name : String} {called : List Char}
    {description : String}
    (member : ⟨name.toList, .any, .aggregate (Aggregate.extremum name pick), description⟩ ∈
      Library.functions) (named : capitals called = name.toList) :
    let numbers := arguments.filterMap argumentNumber?
    let outcome := standard.call settings called arguments
    SameNumber outcome (standard.call settings called others) ∧
      (numbers ≠ [] → ∃ x ∈ numbers, outcome = .ok (.number x) ∧
        ∀ y ∈ numbers, before (rational x) (rational y)) := by
  intro numbers outcome
  have acceptedOthers : ∀ argument ∈ others, IsAccepted argument :=
    fun argument inside => accepted argument (permuted.mem_iff.mpr inside)
  have finite : ∀ x ∈ numbers, x.isFinite = true := isFinite_of_mem_argumentNumbers accepted
  have outcome_eq : outcome = _ :=
    call_of_gathered member rfl named (aggregateNumbers_of_accepted accepted)
  rw [call_of_gathered member rfl named (aggregateNumbers_of_accepted acceptedOthers), outcome_eq]
  constructor
  · rcases Aggregate.extremum_perm picks name (permuted.filterMap argumentNumber?) finite settings
      with ⟨x, y, first, second, finiteX, finiteY, same⟩ | ⟨fault, first, second⟩
    · rw [first, second]
      exact .inl ⟨x, y, by simp [Expression.requireFinite, finiteX],
        by simp [Expression.requireFinite, finiteY], (beq_iff_rational finiteX finiteY).mpr same⟩
    · rw [first, second]
      exact .inr ⟨fault, rfl, rfl⟩
  · intro nonempty
    obtain ⟨x, inside, result, wins⟩ :=
      Aggregate.exists_extremum picks name nonempty finite settings
    refine ⟨x, inside, ?_, wins⟩
    rw [result, Outcome.ok_bind, Expression.requireFinite, if_pos (finite x inside)]

/-- The least and the greatest number, the count and the median of accepted arguments do not depend
on their order. The least number is one of the numbers among the arguments and no greater than any
of them, and the greatest is one of them and no less than any. -/
theorem Registry.call_perm {name : List Char}
    (listed : capitals name ∈ ["MIN", "MAX", "COUNT", "MEDIAN"].map String.toList) :
    let numbers := arguments.filterMap argumentNumber?
    let outcome := standard.call settings name arguments
    SameNumber outcome (standard.call settings name others) ∧
      (capitals name = "MIN".toList → numbers ≠ [] →
        ∃ x ∈ numbers, outcome = .ok (.number x) ∧ ∀ y ∈ numbers, x ≤ y) ∧
      (capitals name = "MAX".toList → numbers ≠ [] →
        ∃ x ∈ numbers, outcome = .ok (.number x) ∧ ∀ y ∈ numbers, y ≤ x) := by
  intro numbers outcome
  have finite : ∀ x ∈ numbers, x.isFinite = true := isFinite_of_mem_argumentNumbers accepted
  have isNot {first second : String} (named : capitals name = first.toList)
      (other : first.toList ≠ second.toList) {p : Prop}
      (named' : capitals name = second.toList) : p :=
    absurd (named.symm.trans named') other
  simp only [List.map_cons, List.map_nil, List.mem_cons, List.not_mem_nil, or_false] at listed
  rcases listed with isMin | isMax | isCount | isMedian
  · obtain ⟨same, least⟩ := @call_perm_of_picks settings arguments others accepted permuted _ _
      Aggregate.picks_smaller "MIN" name _ (@List.getElem_mem _ Library.functions 2 (by decide))
      isMin
    refine ⟨same, fun _ nonempty => ?_, isNot isMin (by decide)⟩
    obtain ⟨x, inside, result, below⟩ := least nonempty
    exact ⟨x, inside, result, fun y member =>
      (le_iff_rational (finite x inside) (finite y member)).mpr (below y member)⟩
  · obtain ⟨same, greatest⟩ := @call_perm_of_picks settings arguments others accepted permuted _ _
      Aggregate.picks_larger "MAX" name _ (@List.getElem_mem _ Library.functions 3 (by decide))
      isMax
    refine ⟨same, isNot isMax (by decide), fun _ nonempty => ?_⟩
    obtain ⟨x, inside, result, above⟩ := greatest nonempty
    exact ⟨x, inside, result, fun y member =>
      (le_iff_rational (finite y member) (finite x inside)).mpr (above y member)⟩
  · have same := @call_perm_of_eq settings arguments others accepted permuted _ name _ _
      (@List.getElem_mem _ Library.functions 4 (by decide))
      (fun shuffled => congrArg Float.ofNat shuffled.length_eq) isCount
    exact ⟨same, isNot isCount (by decide), isNot isCount (by decide)⟩
  · have same := @call_perm_of_eq settings arguments others accepted permuted _ name _ _
      (@List.getElem_mem _ Library.functions 5 (by decide)) Aggregate.median_eq_of_perm isMedian
    exact ⟨same, isNot isMedian (by decide), isNot isMedian (by decide)⟩

end

/-- Missing slots and a text among zeros of both signs: the two orders leave different zeros. -/
theorem Registry.call_perm_of_zeros :
    let arguments := ["0", "2", "", "\"x\"", "-0", "()"].map String.toList
    let others := ["-0", "()", "2", "0", "\"x\"", ""].map String.toList
    SameNumber (standard.call {} "min".toList arguments) (standard.call {} "min".toList others) ∧
      ∃ x ∈ [0.0, 2.0, -0.0], standard.call {} "min".toList arguments = .ok (.number x) ∧
        ∀ y ∈ [0.0, 2.0, -0.0], x ≤ y := by
  intro arguments others
  have accepted : ∀ argument ∈ arguments, IsAccepted argument := by
    simp only [arguments, List.map_cons, List.map_nil, List.forall_mem_cons]
    exact ⟨.inr ⟨.number 0.0, by decide +kernel⟩, .inr ⟨.number 2.0, by decide +kernel⟩,
      .inl (by decide), .inr ⟨.text ['x'], by decide +kernel⟩,
      .inr ⟨.number (-0.0), by decide +kernel⟩, .inl (by decide), List.forall_mem_nil _⟩
  have numbers : arguments.filterMap argumentNumber? = [0.0, 2.0, -0.0] := by decide +kernel
  obtain ⟨same, least, _⟩ :=
    @Registry.call_perm {} arguments others accepted (by decide) "min".toList (by decide)
  rw [numbers] at least
  exact ⟨same, least (by decide) (by decide)⟩

end Worksheet
