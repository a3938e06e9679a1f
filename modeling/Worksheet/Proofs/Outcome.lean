import Mathlib
import Worksheet.FormulaError

/-!
# Outcomes in sequence

What it takes for a sequence of computations to succeed, and what it gives when one of them is
known.
-/

set_option autoImplicit false

namespace Worksheet.Outcome

variable {α β : Type}

@[simp]
theorem ok_bind (a : α) (next : α → Except FormulaError β) : (Except.ok a >>= next) = next a :=
  rfl

@[simp]
theorem error_bind (error : FormulaError) (next : α → Except FormulaError β) :
    (Except.error error >>= next) = .error error :=
  rfl

@[simp]
theorem pure_eq (a : α) : (pure a : Except FormulaError α) = .ok a :=
  rfl

theorem bind_eq_ok {first : Except FormulaError α} {next : α → Except FormulaError β} {b : β} :
    (first >>= next) = .ok b ↔ ∃ a, first = .ok a ∧ next a = .ok b := by
  cases first <;> simp

theorem bind_eq_error {first : Except FormulaError α} {next : α → Except FormulaError β}
    {error : FormulaError} :
    (first >>= next) = .error error ↔
      first = .error error ∨ ∃ a, first = .ok a ∧ next a = .error error := by
  cases first <;> simp

theorem map_eq_ok {first : Except FormulaError α} {f : α → β} {b : β} :
    f <$> first = .ok b ↔ ∃ a, first = .ok a ∧ f a = b := by
  cases first <;> simp

theorem exists_of_mapM_eq_error {f : α → Except FormulaError β} {list : List α}
    {error : FormulaError} (failed : list.mapM f = .error error) : ∃ a ∈ list, f a = .error error := by
  induction list with
  | nil => cases failed
  | cons first rest ih =>
      rw [List.mapM_cons] at failed
      rcases bind_eq_error.mp failed with failed | ⟨_, _, failed⟩
      · exact ⟨first, List.mem_cons_self, failed⟩
      rcases bind_eq_error.mp failed with failed | ⟨_, _, failed⟩
      · obtain ⟨a, member, failed⟩ := ih failed
        exact ⟨a, List.mem_cons_of_mem _ member, failed⟩
      · cases failed

theorem exists_error_of_mapM {f : α → Except FormulaError β} {list : List α} {a : α}
    (member : a ∈ list) (failed : ∃ error, f a = .error error) :
    ∃ error, list.mapM f = .error error := by
  induction list with
  | nil => cases member
  | cons first rest ih =>
      rw [List.mapM_cons]
      cases outcome : f first with
      | error error => exact ⟨error, rfl⟩
      | ok b =>
          have later : a ∈ rest := by
            rcases List.mem_cons.mp member with rfl | later
            · obtain ⟨error, failed⟩ := failed
              rw [outcome] at failed
              cases failed
            · exact later
          obtain ⟨error, failed⟩ := ih later
          exact ⟨error, by rw [failed]; rfl⟩

end Worksheet.Outcome
