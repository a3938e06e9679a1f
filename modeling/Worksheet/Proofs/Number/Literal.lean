import Mathlib
import Worksheet.Function.Application
import Worksheet.Proofs.Number.ReadBack

/-!
# Literals of values

The literal of a finite number is a run of digits and points, or one behind a minus in
parentheses. What a call returns is a text or a finite number, so literals never spell anything
else.
-/

set_option autoImplicit false

namespace Worksheet

theorem isNaN_of_isFinite {x : Float} (finite : x.isFinite = true) : x.isNaN = false := by
  change x.toModel.unpack.isFinite = true at finite
  change x.toModel.unpack.isNaN = false
  cases unpacked : x.toModel.unpack <;> simp_all [Float.Model.UnpackedFloat.isFinite,
    Float.Model.UnpackedFloat.isNaN]

theorem isInf_of_isFinite {x : Float} (finite : x.isFinite = true) : x.isInf = false := by
  change x.toModel.unpack.isFinite = true at finite
  change x.toModel.unpack.isInf = false
  cases unpacked : x.toModel.unpack <;> simp_all [Float.Model.UnpackedFloat.isFinite,
    Float.Model.UnpackedFloat.isInf]

def unsignedDigits (x : Float) : List Char :=
  spellMagnitude (Magnitude.ofFloat x)

theorem spellNumber_of_isFinite {x : Float} (finite : x.isFinite = true) :
    spellNumber x = signed (isNegative x) (unsignedDigits x) := by
  rw [spellNumber, isNaN_of_isFinite finite, isInf_of_isFinite finite]
  rfl

theorem isDigits_unsignedDigits (x : Float) : IsDigits (unsignedDigits x) :=
  isDigits_spellMagnitude _

theorem nearest_false (n d : Nat) :
    nearest false n d = Float.ofBits (.ofNat (Magnitude.nearestBits n d)) := by
  simp [nearest]

theorem nearestBits_lt {n d : Nat} (finite : (nearest false n d).isFinite = true) :
    Magnitude.nearestBits n d < 2047 * 2 ^ 52 := by
  have most : Magnitude.nearestBits n d ≤ 2047 * 2 ^ 52 := by
    unfold Magnitude.nearestBits
    split
    · exact Nat.zero_le _
    · exact Nat.min_le_right _ _
  have notInfinite : Magnitude.nearestBits n d ≠ 2047 * 2 ^ 52 := by
    intro same
    rw [nearest_false, same] at finite
    revert finite
    decide +kernel
  omega

theorem isNegative_nearest {n d : Nat} (finite : (nearest false n d).isFinite = true) :
    isNegative (nearest false n d) = false := by
  have bounded := nearestBits_lt finite
  rw [nearest_false]
  apply isNegative_ofBits
  rwa [UInt64.toNat_ofNat_of_lt' (bounded.trans (by decide))]

theorem Decimal.exists_nearest (d : Decimal) :
    ∃ n m, ∀ negative, d.toFloat negative = nearest negative n m := by
  unfold Decimal.toFloat
  extract_lets
  split
  · exact ⟨0, 1, fun _ => rfl⟩
  · split
    · exact ⟨Nat.pow 10 310, 1, fun _ => rfl⟩
    · exact ⟨d.numerator, d.denominator, fun _ => rfl⟩

theorem Decimal.isNegative_toFloat {d : Decimal} (finite : (d.toFloat false).isFinite = true) :
    isNegative (d.toFloat false) = false := by
  obtain ⟨n, m, nearest⟩ := d.exists_nearest
  rw [nearest] at finite ⊢
  exact isNegative_nearest finite

def Value.IsFinite : Value → Prop
  | .number x => x.isFinite = true
  | .text _ => True

theorem Expression.requireFinite_eq_ok {error : FormulaError} {value result : Value} :
    requireFinite error value = .ok result ↔ value = result ∧ value.IsFinite := by
  cases value with
  | text content => simp [requireFinite, Value.IsFinite]
  | number x => by_cases finite : x.isFinite = true <;> simp [requireFinite, Value.IsFinite, finite]

theorem Registry.isFinite_of_call {registry : Registry} {settings : Settings} {name : List Char}
    {arguments : List (List Char)} {value : Value}
    (called : registry.call settings name arguments = .ok value) : value.IsFinite := by
  unfold Registry.call at called
  simp only [] at called
  split at called
  · cases called
  · split at called
    · rename_i function _ _
      cases applied : function.body.apply settings arguments with
      | error error => simp [applied, bind, Except.bind] at called
      | ok result =>
          simp only [applied, bind, Except.bind] at called
          obtain ⟨rfl, finite⟩ := Expression.requireFinite_eq_ok.mp called
          exact finite
    · cases called

theorem spellNumber_of_lt {x : Float} (finite : x.isFinite = true) (below : x + 0.0 < 0.0) :
    spellNumber (x + 0.0) = '-' :: unsignedDigits (x + 0.0) := by
  rw [spellNumber_of_isFinite (isFinite_add_zero finite), (lt_zero_iff_isNegative finite).mp below]
  rfl

theorem spellNumber_of_not_lt {x : Float} (finite : x.isFinite = true) (above : ¬ x + 0.0 < 0.0) :
    spellNumber (x + 0.0) = unsignedDigits (x + 0.0) := by
  rw [spellNumber_of_isFinite (isFinite_add_zero finite), isNegative_of_not_lt finite above]
  rfl

theorem numberLiteral_cases {x : Float} (finite : x.isFinite = true) :
    x + 0.0 < 0.0 ∧ numberLiteral x = '(' :: '-' :: (unsignedDigits (x + 0.0) ++ [')']) ∨
      ¬ x + 0.0 < 0.0 ∧ numberLiteral x = unsignedDigits (x + 0.0) := by
  unfold numberLiteral
  simp only []
  by_cases below : x + 0.0 < 0.0
  · left
    rw [if_pos below, spellNumber_of_lt finite below]
    exact ⟨below, rfl⟩
  · right
    rw [if_neg below, spellNumber_of_not_lt finite below]
    exact ⟨below, rfl⟩

end Worksheet
