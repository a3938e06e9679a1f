import Mathlib
import Worksheet.Text.Blank

/-!
# Trimming

Trimming takes away the blanks at both ends of a text and nothing else, so blanks that are put
around a text do not matter to it. At a character that is no blank it may be done on either side
apart.
-/

set_option autoImplicit false

namespace Worksheet

theorem takeWhile_run {member : Char → Bool} {taken rest : List Char}
    (members : ∀ c ∈ taken, member c = true) (other : ∀ c ∈ rest.head?, member c = false) :
    (taken ++ rest).takeWhile member = taken ∧ (taken ++ rest).dropWhile member = rest := by
  rw [List.takeWhile_append_of_pos members, List.dropWhile_append_of_pos members]
  cases rest with
  | nil => exact ⟨List.append_nil _, rfl⟩
  | cons c rest =>
      have stops : ¬ member c = true := by simp [other c rfl]
      rw [List.takeWhile_cons_of_neg stops, List.dropWhile_cons_of_neg stops, List.append_nil]
      exact ⟨rfl, rfl⟩

theorem dropWhile_isBlank {text : List Char} (visible : ∀ c ∈ text.head?, isBlank c = false) :
    text.dropWhile isBlank = text :=
  (@takeWhile_run isBlank [] text nofun visible).2

theorem exists_blanks_of_trimEnd (text : List Char) :
    ∃ back, text = trimEnd text ++ back ∧ ∀ c ∈ back, isBlank c = true := by
  refine ⟨(text.reverse.takeWhile isBlank).reverse, ?_, ?_⟩
  · rw [trimEnd, ← List.reverse_append, List.takeWhile_append_dropWhile, List.reverse_reverse]
  · intro c member
    exact List.mem_takeWhile_imp (List.mem_reverse.mp member)

theorem exists_blanks_of_trim (text : List Char) :
    ∃ front back, text = front ++ (trim text ++ back) ∧ (∀ c ∈ front, isBlank c = true) ∧
      ∀ c ∈ back, isBlank c = true := by
  obtain ⟨back, whole, backBlank⟩ := exists_blanks_of_trimEnd (text.dropWhile isBlank)
  refine ⟨text.takeWhile isBlank, back, ?_, fun c member => List.mem_takeWhile_imp member, backBlank⟩
  rw [trim, ← whole, List.takeWhile_append_dropWhile]

theorem isEmpty_trim (text : List Char) : (trim text).isEmpty = text.all isBlank := by
  obtain ⟨front, back, whole, frontBlank, backBlank⟩ := exists_blanks_of_trim text
  rw [Bool.eq_iff_iff, List.isEmpty_iff, List.all_eq_true]
  constructor
  · intro empty c member
    rw [whole, empty, List.nil_append, List.mem_append] at member
    exact member.elim (frontBlank c) (backBlank c)
  · intro blank
    rw [trim, List.dropWhile_eq_nil_iff.mpr blank]
    rfl

theorem trim_of_ends {text : List Char} (first : ∀ c ∈ text.head?, isBlank c = false)
    (last : ∀ c ∈ text.getLast?, isBlank c = false) : trim text = text := by
  rw [trim, trimEnd, dropWhile_isBlank first, dropWhile_isBlank (by rwa [List.head?_reverse]),
    List.reverse_reverse]

theorem trim_of_visible {text : List Char} (visible : ∀ c ∈ text, isBlank c = false) :
    trim text = text :=
  trim_of_ends (fun c member => visible c (List.mem_of_mem_head? member))
    fun c member => visible c (List.mem_of_mem_getLast? member)

theorem isBlank_last {text : List Char} (trimmed : trim text = text) :
    ∀ c ∈ text.getLast?, isBlank c = false := by
  intro c last
  rw [← trimmed, trim, trimEnd, List.getLast?_reverse, Option.mem_def] at last
  have visible := List.head?_dropWhile_not isBlank (text.dropWhile isBlank).reverse
  rw [last] at visible
  simpa using visible

theorem trim_append_left {front : List Char} (blank : ∀ c ∈ front, isBlank c = true)
    (text : List Char) : trim (front ++ text) = trim text := by
  rw [trim, List.dropWhile_append_of_pos blank, trim]

theorem trimEnd_append_right {back : List Char} (blank : ∀ c ∈ back, isBlank c = true)
    (text : List Char) : trimEnd (text ++ back) = trimEnd text := by
  have reversed : ∀ c ∈ back.reverse, isBlank c = true := by
    intro c member
    exact blank c (List.mem_reverse.mp member)
  rw [trimEnd, List.reverse_append, List.dropWhile_append_of_pos reversed, trimEnd]

theorem trim_append_right {back : List Char} (blank : ∀ c ∈ back, isBlank c = true)
    (text : List Char) : trim (text ++ back) = trim text := by
  rw [trim, trim, List.dropWhile_append]
  split
  · rename_i allBlank
    rw [List.dropWhile_eq_nil_iff.mpr blank, List.isEmpty_iff.mp allBlank]
  · exact trimEnd_append_right blank _

theorem trim_around {front back : List Char} (frontBlank : ∀ c ∈ front, isBlank c = true)
    (backBlank : ∀ c ∈ back, isBlank c = true) (text : List Char) :
    trim (front ++ (text ++ back)) = trim text := by
  rw [trim_append_left frontBlank, trim_append_right backBlank]

theorem dropWhile_isBlank_append {c : Char} (visible : isBlank c = false)
    (text rest : List Char) :
    (text ++ c :: rest).dropWhile isBlank = text.dropWhile isBlank ++ c :: rest := by
  rw [List.dropWhile_append, List.dropWhile_cons_of_neg (by simp [visible])]
  split
  · rename_i allBlank
    rw [List.isEmpty_iff.mp allBlank, List.nil_append]
  · rfl

theorem trim_append_cons {c : Char} (visible : isBlank c = false) (text rest : List Char) :
    trim (text ++ c :: rest) = text.dropWhile isBlank ++ c :: trimEnd rest := by
  have reversed : (text.dropWhile isBlank ++ c :: rest).reverse =
      rest.reverse ++ c :: (text.dropWhile isBlank).reverse := by simp
  rw [trim, dropWhile_isBlank_append visible, trimEnd, reversed,
    dropWhile_isBlank_append visible, trimEnd]
  simp

theorem trim_dropWhile (text : List Char) : trim (text.dropWhile isBlank) = trim text := by
  rw [trim, List.dropWhile_idempotent, trim]

theorem trim_trimEnd (text : List Char) : trim (trimEnd text) = trim text := by
  obtain ⟨back, whole, blank⟩ := exists_blanks_of_trimEnd text
  have around := trim_append_right blank (trimEnd text)
  rw [← whole] at around
  exact around.symm

end Worksheet
