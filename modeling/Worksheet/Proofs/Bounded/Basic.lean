import Mathlib
import Worksheet.Proofs.Outcome
import Worksheet.Script.Basic

/-!
# Reading within bounds

A text can be read by offsets in bytes instead of by its structure, and a list by indices. Then a
step may ask for what is not there: an offset beyond the end of the text or inside a character, an
index beyond the end of the list, a difference below zero. Such a step has no outcome at all,
neither a value nor an error.
-/

set_option autoImplicit false

namespace Worksheet

/-- Cuts a text at an offset in bytes. There is no cut beyond its end or inside a character. -/
def cut? (offset : Nat) : List Char → Option (List Char × List Char)
  | [] => if offset = 0 then some ([], []) else none
  | c :: rest =>
      if offset = 0 then some ([], c :: rest)
      else if c.utf8Size ≤ offset then
        (cut? (offset - c.utf8Size) rest).map fun (front, back) => (c :: front, back)
      else none

def isBoundary (text : List Char) (offset : Nat) : Bool :=
  (cut? offset text).isSome

def slice? (text : List Char) (start stop : Nat) : Option (List Char) := do
  let (front, _) ← cut? stop text
  let (_, part) ← cut? start front
  return part

def replaceSlice? (text : List Char) (start stop : Nat) (new : List Char) :
    Option (List Char) := do
  let (front, back) ← cut? stop text
  let (before, _) ← cut? start front
  return before ++ new ++ back

def take? {α : Type} (list : List α) (count : Nat) : Option (List α) :=
  if count ≤ list.length then some (list.take count) else none

def part? {α : Type} (list : List α) (start stop : Nat) : Option (List α) :=
  if start ≤ stop ∧ stop ≤ list.length then some ((list.take stop).drop start) else none

def minus? (a b : Nat) : Option Nat :=
  if b ≤ a then some (a - b) else none

def set? {α : Type} (list : List α) (index : Nat) (element : α) : Option (List α) :=
  if index < list.length then some (list.set index element) else none

theorem take?_append {α : Type} (front back : List α) :
    take? (front ++ back) front.length = some front := by
  rw [take?, if_pos (by rw [List.length_append]; exact Nat.le_add_right _ _), List.take_left]

theorem part?_append {α : Type} {list front part back : List α} {start stop : Nat}
    (list_eq : list = front ++ (part ++ back)) (start_eq : start = front.length)
    (stop_eq : stop = front.length + part.length) : part? list start stop = some part := by
  subst list_eq start_eq stop_eq
  rw [part?, if_pos (by simp), ← List.length_append, ← List.append_assoc, List.take_left,
    List.drop_left]

theorem getElem?_append_cons {α : Type} {list front back : List α} {a : α} {index : Nat}
    (list_eq : list = front ++ a :: back) (index_eq : index = front.length) :
    list[index]? = some a := by
  rw [list_eq, index_eq, List.getElem?_append_right (Nat.le_refl _), Nat.sub_self]
  rfl

theorem minus?_of_le {a b : Nat} (le : b ≤ a) : minus? a b = some (a - b) :=
  if_pos le

theorem set?_append_cons {α : Type} {list front back : List α} {a : α} {index : Nat}
    (list_eq : list = front ++ a :: back) (index_eq : index = front.length) (element : α) :
    set? list index element = some (front ++ element :: back) := by
  rw [set?, if_pos (by rw [list_eq, index_eq]; simp), list_eq, index_eq, List.set_append_right _ _
    (Nat.le_refl _), Nat.sub_self, List.set_cons_zero]

section Cut

open Script (byteSize byteSize_append)

theorem byteSize_concat (front : List Char) (c : Char) :
    byteSize (front ++ [c]) = byteSize front + c.utf8Size :=
  byteSize_append front [c]

/-- The cuts of a text are its decompositions into two. -/
theorem cut?_eq_some_iff {offset : Nat} {text front back : List Char} :
    cut? offset text = some (front, back) ↔ text = front ++ back ∧ byteSize front = offset := by
  induction text generalizing offset front with
  | nil =>
      rw [cut?]
      constructor
      · intro found
        split at found
        · rename_i zero
          obtain ⟨rfl, rfl⟩ := Prod.mk.inj (Option.some.inj found)
          exact ⟨rfl, zero.symm⟩
        · cases found
      · rintro ⟨same, rfl⟩
        obtain ⟨rfl, rfl⟩ := List.append_eq_nil_iff.mp same.symm
        rfl
  | cons c rest ih =>
      have wide := Char.utf8Size_pos c
      rw [cut?]
      constructor
      · intro found
        split at found
        · rename_i zero
          obtain ⟨rfl, rfl⟩ := Prod.mk.inj (Option.some.inj found)
          exact ⟨rfl, zero.symm⟩
        · split at found
          · obtain ⟨⟨more, behind⟩, cut, same⟩ := Option.map_eq_some_iff.mp found
            obtain ⟨rfl, rfl⟩ := Prod.mk.inj same
            obtain ⟨rfl, size⟩ := ih.mp cut
            refine ⟨rfl, ?_⟩
            rw [byteSize]
            omega
          · cases found
      · rintro ⟨same, rfl⟩
        cases front with
        | nil =>
            rw [if_pos (by rfl), same]
            rfl
        | cons d more =>
            obtain ⟨rfl, tail⟩ := List.cons.inj same
            have cut := ih.mpr ⟨tail, rfl⟩
            have beyond : ¬ byteSize (c :: more) = 0 := by
              rw [byteSize]
              omega
            have reaches : c.utf8Size ≤ byteSize (c :: more) := Nat.le_add_right _ _
            have left : byteSize (c :: more) - c.utf8Size = byteSize more := by
              rw [byteSize]
              omega
            rw [if_neg beyond, if_pos reaches, left, cut]
            rfl

theorem cut?_append (front back : List Char) :
    cut? (byteSize front) (front ++ back) = some (front, back) :=
  cut?_eq_some_iff.mpr ⟨rfl, rfl⟩

theorem isBoundary_iff {text : List Char} {offset : Nat} :
    isBoundary text offset = true ↔
      ∃ front back, text = front ++ back ∧ byteSize front = offset := by
  rw [isBoundary, Option.isSome_iff_exists]
  constructor
  · rintro ⟨⟨front, back⟩, found⟩
    exact ⟨front, back, cut?_eq_some_iff.mp found⟩
  · rintro ⟨front, back, decomposed⟩
    exact ⟨(front, back), cut?_eq_some_iff.mpr decomposed⟩

theorem isBoundary_append {front : List Char} {offset : Nat}
    (boundary : isBoundary front offset = true) (back : List Char) :
    isBoundary (front ++ back) offset = true := by
  obtain ⟨before, after, rfl, size⟩ := isBoundary_iff.mp boundary
  exact isBoundary_iff.mpr ⟨before, after ++ back, List.append_assoc _ _ _, size⟩

theorem slice?_append {text front part back : List Char} {start stop : Nat}
    (text_eq : text = front ++ (part ++ back)) (start_eq : start = byteSize front)
    (stop_eq : stop = byteSize front + byteSize part) : slice? text start stop = some part := by
  subst text_eq start_eq stop_eq
  rw [slice?, ← byteSize_append, ← List.append_assoc, cut?_append, Option.bind_eq_bind,
    Option.bind_some]
  simp only [cut?_append, Option.bind_some, Option.pure_def]

theorem replaceSlice?_append {text front part back : List Char} {start stop : Nat}
    (text_eq : text = front ++ (part ++ back)) (start_eq : start = byteSize front)
    (stop_eq : stop = byteSize front + byteSize part) (new : List Char) :
    replaceSlice? text start stop new = some (front ++ new ++ back) := by
  subst text_eq start_eq stop_eq
  rw [replaceSlice?, ← byteSize_append, ← List.append_assoc, cut?_append, Option.bind_eq_bind,
    Option.bind_some]
  simp only [cut?_append, Option.bind_some, Option.pure_def]

end Cut

/-- A computation that has an outcome as long as it stays within bounds, and none otherwise. -/
abbrev Bounded (α : Type) : Type :=
  ExceptT FormulaError Option α

namespace Bounded

variable {α β : Type}

def within (outcome : Except FormulaError α) : Bounded α :=
  ExceptT.mk (some outcome)

def reach (found : Option α) : Bounded α :=
  ExceptT.lift found

@[simp]
theorem reach_some (a : α) : reach (some a) = pure a :=
  rfl

theorem within_ok (a : α) : within (.ok a) = pure a :=
  rfl

theorem within_bind (outcome : Except FormulaError α) (next : α → Except FormulaError β) :
    within (outcome >>= next) = within outcome >>= fun a => within (next a) := by
  cases outcome <;> rfl

theorem mapM_within (f : α → Except FormulaError β) (list : List α) :
    list.mapM (fun a => within (f a)) = within (list.mapM f) := by
  induction list with
  | nil => rfl
  | cons first rest ih =>
      rw [List.mapM_cons, List.mapM_cons, ih, within_bind]
      congr 1
      funext b
      rw [within_bind]
      rfl

end Bounded

end Worksheet
