import Mathlib
import Worksheet.Proofs.Number.Bits

/-!
# Quotients

A quotient by a finite number is finite only if the dividend is. The sign of a zero dividend is the
sign of a zero quotient at most, so taking it away before the division or after it is the same.
-/

set_option autoImplicit false

namespace Worksheet

open Float.Model Float.Model.UnpackedFloat

theorem div_eq_ofModel (x y : Float) :
    x / y = Float.ofModel (Float.Model.pack
      (UnpackedFloat.div Format.binary64 x.toModel.unpack y.toModel.unpack)) := rfl

theorem infinity_div (sign : Sign) {divisor : UnpackedFloat} (finite : divisor.isFinite = true) :
    ∃ other, UnpackedFloat.div Format.binary64 (.infinity sign) divisor = .infinity other := by
  cases divisor with
  | notANumber => cases finite
  | infinity other => cases finite
  | zero other => exact ⟨sign / other, rfl⟩
  | finite other mantissa exponent positive => exact ⟨sign / other, rfl⟩

/-- A zero divided by anything is a zero or no number, and which of the two does not depend on the
sign of the zero. -/
theorem zero_div_cases (divisor : UnpackedFloat) :
    (∀ sign, UnpackedFloat.div Format.binary64 (.zero sign) divisor = .notANumber) ∨
      ∀ sign, ∃ other, UnpackedFloat.div Format.binary64 (.zero sign) divisor = .zero other := by
  cases divisor with
  | notANumber => exact .inl fun _ => rfl
  | zero other => exact .inl fun _ => rfl
  | infinity other => exact .inr fun sign => ⟨sign / other, rfl⟩
  | finite other mantissa exponent positive => exact .inr fun sign => ⟨sign / other, rfl⟩

theorem isFinite_of_isFinite_div {x y : Float} (divisor : y.isFinite = true)
    (quotient : (x / y).isFinite = true) : x.isFinite = true := by
  rw [isFinite_iff] at divisor ⊢
  rw [div_eq_ofModel] at quotient
  cases dividend : x.toModel.unpack with
  | notANumber =>
      have none : UnpackedFloat.div Format.binary64 .notANumber y.toModel.unpack = .notANumber := rfl
      rw [dividend, none] at quotient
      cases quotient
  | infinity sign =>
      obtain ⟨other, infinite⟩ := infinity_div sign divisor
      rw [dividend, infinite] at quotient
      cases other <;> cases quotient
  | zero sign => rfl
  | finite sign mantissa exponent positive => rfl

theorem add_zero_div {x : Float} (dividend : x.isFinite = true) (y : Float) :
    (x + 0.0) / y + 0.0 = x / y + 0.0 ∧ ((x + 0.0) / y).isFinite = (x / y).isFinite := by
  rcases unpack_of_isFinite dividend with ⟨_, unpacked⟩ | ⟨_, unpacked⟩
  · rw [add_zero_of_unpack_zero unpacked, div_eq_ofModel, div_eq_ofModel, unpacked, unpack_zero]
    rcases zero_div_cases y.toModel.unpack with none | zero
    · rw [none, none]
      exact ⟨rfl, rfl⟩
    · obtain ⟨first, positive⟩ := zero .positive
      obtain ⟨second, signed⟩ := zero (unpackedSign x)
      rw [positive, signed]
      cases first <;> cases second <;> exact ⟨rfl, rfl⟩
  · rw [add_zero_of_unpack_finite unpacked]
    exact ⟨rfl, rfl⟩

theorem add_zero_of_positive {x : Float} (finite : x.isFinite = true) (positive : 0.0 < x + 0.0) :
    x + 0.0 = x ∧ (x == 0.0) = false := by
  rcases add_zero_cases finite with zero | ⟨same, nonzero⟩
  · have never : ¬ (0.0 : Float) < 0.0 := by decide
    rw [zero] at positive
    exact absurd positive never
  · refine ⟨same, ?_⟩
    change (x.toModel.unpack.compare (0.0 : Float).toModel.unpack == some .eq) = false
    rcases unpack_of_isFinite finite with ⟨zero, _⟩ | ⟨_, unpacked⟩
    · omega
    · rw [unpacked, unpack_zero]
      cases unpackedSign x <;> rfl

end Worksheet
