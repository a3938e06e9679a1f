import Mathlib
import Worksheet.Proofs.Outcome
import Worksheet.Reference.Resolution

/-!
# Strict references

A reference dangles when there is nothing it could read as: a cell that is absent or is no cell, or
a range of numbers that covers no present cell or is no range. Settings that are not strict read
something for it. Strict settings refuse the text at the first reference that dangles, and a text
without one they resolve as settings that are not strict do.
-/

set_option autoImplicit false

namespace Worksheet

variable {grid : Grid} {settings : Settings} {place : Place} {piece : Piece} {rest : List Piece}

/-- A reference that refers to nothing on a grid. Where text is read a range stands for itself. -/
def Piece.RefersToNothing (grid : Grid) (readsText : Bool) : Piece → Prop
  | plain _ => False
  | range token =>
      readsText = false ∧ ∀ range, Range.read? token = some range → range.cells grid = []
  | cell token => ∀ cell, Cell.read? token = some cell → grid.get? cell = none

/-- A reference outside literals, not the name of a call, that refers to nothing. -/
structure Piece.Dangles (grid : Grid) (place : Place) (piece : Piece) (rest : List Piece) :
    Prop where
  outside : place.inside = false
  notName : Piece.opensCall rest = false
  nothing : piece.RefersToNothing grid place.readsText

/-- The leftmost reference that dangles among the pieces of a text. -/
structure DanglesFirst (grid : Grid) (place : Place) (pieces before : List Piece) (piece : Piece)
    (after : List Piece) : Prop where
  split : pieces = before ++ piece :: after
  dangles : piece.Dangles grid ((before.flatMap Piece.chars).foldl Place.step place) after
  leftmost : ∀ earlier other later, before = earlier ++ other :: later →
    ¬ other.Dangles grid ((earlier.flatMap Piece.chars).foldl Place.step place)
      (later ++ piece :: after)

theorem resolvePiece_of_not_dangles (sound : ¬ piece.Dangles grid place rest) :
    ∃ literal, ∀ settings, resolvePiece grid settings place piece rest = .ok literal := by
  by_cases itself : place.inside = true ∨ Piece.opensCall rest = true
  · exact ⟨piece.chars, fun settings => by simp [resolvePiece, itself]⟩
  obtain ⟨outside, notName⟩ : place.inside = false ∧ Piece.opensCall rest = false := by
    simpa using itself
  have something : ¬ piece.RefersToNothing grid place.readsText :=
    fun nothing => sound ⟨outside, notName, nothing⟩
  cases piece with
  | plain c => exact ⟨[c], fun settings => by simp [resolvePiece, outside, notName]⟩
  | range token =>
      by_cases text : place.readsText = true
      · exact ⟨token, fun settings => by
          simp [resolvePiece, outside, notName, rangeLiteral, text]⟩
      simp only [Piece.RefersToNothing, Bool.eq_false_iff.mpr text, true_and, not_forall] at something
      obtain ⟨range, read, present⟩ := something
      refine ⟨numbersLiteral (range.numbers grid), fun settings => ?_⟩
      have covered : (range.cells grid).isEmpty = false := by simpa using present
      simp [resolvePiece, outside, notName, rangeLiteral, text, read, covered]
  | cell token =>
      simp only [Piece.RefersToNothing, not_forall] at something
      obtain ⟨cell, read, present⟩ := something
      obtain ⟨value, found⟩ := Option.ne_none_iff_exists'.mp present
      exact ⟨if place.readsText then quote value.shown else cellOperand value, fun settings => by
        simp [resolvePiece, outside, notName, cellLiteral, read, found]⟩

theorem resolvePiece_of_dangles (strict : settings.strictReferences = true)
    (dangles : piece.Dangles grid place rest) :
    resolvePiece grid settings place piece rest =
      .error (.malformedReference (capitals piece.chars)) := by
  obtain ⟨outside, notName, nothing⟩ := dangles
  cases piece with
  | plain c => exact nothing.elim
  | range token =>
      obtain ⟨numbers, nothing⟩ := nothing
      cases read : Range.read? token with
      | none => simp [resolvePiece, outside, notName, rangeLiteral, numbers, read, unresolved, strict,
          Piece.chars]
      | some range => simp [resolvePiece, outside, notName, rangeLiteral, numbers, read, unresolved,
          strict, nothing range read, Piece.chars]
  | cell token =>
      have absent : (Cell.read? token).bind grid.get? = none := by
        cases read : Cell.read? token with
        | none => rfl
        | some cell => exact nothing cell read
      simp [resolvePiece, outside, notName, cellLiteral, absent, unresolved, strict, Piece.chars]

theorem exists_of_resolvePiece_lenient (lenient : settings.strictReferences = false) (place : Place)
    (piece : Piece) (rest : List Piece) :
    ∃ literal, resolvePiece grid settings place piece rest = .ok literal := by
  have unresolved_ok (token fallback : List Char) :
      unresolved settings token fallback = .ok fallback := by simp [unresolved, lenient]
  unfold resolvePiece
  split
  · exact ⟨_, rfl⟩
  · cases piece with
    | plain c => exact ⟨_, rfl⟩
    | range token =>
        simp only [rangeLiteral, unresolved_ok, lenient, Bool.false_and]
        split
        · exact ⟨_, rfl⟩
        · split <;> exact ⟨_, rfl⟩
    | cell token =>
        simp only [cellLiteral, unresolved_ok]
        split <;> exact ⟨_, rfl⟩

theorem exists_of_resolvePieces_lenient (lenient : settings.strictReferences = false)
    (place : Place) (pieces : List Piece) :
    ∃ resolved, resolvePieces grid settings place pieces = .ok resolved := by
  induction pieces generalizing place with
  | nil => exact ⟨[], rfl⟩
  | cons piece rest ih =>
      obtain ⟨literal, read⟩ := @exists_of_resolvePiece_lenient grid settings lenient place piece rest
      obtain ⟨others, later⟩ := ih (piece.chars.foldl Place.step place)
      exact ⟨literal ++ others, by rw [resolvePieces, read, Outcome.ok_bind, later]; rfl⟩

theorem exists_of_resolve_lenient (lenient : settings.strictReferences = false)
    (text : List Char) : ∃ resolved, resolve grid settings text = .ok resolved :=
  exists_of_resolvePieces_lenient lenient {} _

/-- A reference behind a first piece that does not dangle is the leftmost one to dangle in the rest
of the text if it is so in the whole text. -/
theorem DanglesFirst.cons_iff {pieces before after : List Piece} {first piece : Piece}
    (sound : ¬ first.Dangles grid place pieces) :
    DanglesFirst grid place (first :: pieces) before piece after ↔
      ∃ later, before = first :: later ∧
        DanglesFirst grid (first.chars.foldl Place.step place) pieces later piece after := by
  constructor
  · rintro ⟨split, dangles, leftmost⟩
    cases before with
    | nil =>
        obtain ⟨rfl, rfl⟩ := List.cons.inj split
        exact absurd dangles sound
    | cons other later =>
        obtain ⟨rfl, tail⟩ := List.cons.inj split
        refine ⟨later, rfl, tail, by simpa using dangles, fun earlier other more same => ?_⟩
        simpa using leftmost (first :: earlier) other more (by rw [same]; rfl)
  · rintro ⟨later, rfl, rfl, dangles, leftmost⟩
    refine ⟨rfl, by simpa using dangles, fun earlier other more same => ?_⟩
    cases earlier with
    | nil =>
        obtain ⟨rfl, rfl⟩ := List.cons.inj same
        exact sound
    | cons front earlier =>
        obtain ⟨rfl, tail⟩ := List.cons.inj same
        simpa using leftmost earlier other more tail

theorem DanglesFirst.iff_of_dangles {pieces before after : List Piece} {first piece : Piece}
    (dangles : first.Dangles grid place pieces) :
    DanglesFirst grid place (first :: pieces) before piece after ↔
      before = [] ∧ piece = first ∧ after = pieces := by
  constructor
  · rintro ⟨split, _, leftmost⟩
    cases before with
    | nil =>
        obtain ⟨rfl, rfl⟩ := List.cons.inj split
        exact ⟨rfl, rfl, rfl⟩
    | cons other later =>
        obtain ⟨rfl, rfl⟩ := List.cons.inj split
        exact absurd dangles (leftmost [] first later rfl)
  · rintro ⟨rfl, rfl, rfl⟩
    exact ⟨rfl, dangles, fun earlier other later same => by simp at same⟩

/-- Strict settings refuse a text for the leftmost reference that dangles, and resolve a text
without one as all settings do. -/
theorem resolvePieces_strict (strict : settings.strictReferences = true) (place : Place)
    (pieces : List Piece) :
    (∃ before piece after, DanglesFirst grid place pieces before piece after ∧
      resolvePieces grid settings place pieces =
        .error (.malformedReference (capitals piece.chars))) ∨
    ((∀ before piece after, ¬ DanglesFirst grid place pieces before piece after) ∧
      ∃ resolved, ∀ settings, resolvePieces grid settings place pieces = .ok resolved) := by
  induction pieces generalizing place with
  | nil =>
      refine .inr ⟨fun before piece after first => ?_, [], fun _ => rfl⟩
      simpa using first.split
  | cons piece rest ih =>
      by_cases dangles : piece.Dangles grid place rest
      · left
        refine ⟨[], piece, rest, (DanglesFirst.iff_of_dangles dangles).mpr ⟨rfl, rfl, rfl⟩, ?_⟩
        rw [resolvePieces, resolvePiece_of_dangles strict dangles]
        rfl
      obtain ⟨literal, read⟩ := resolvePiece_of_not_dangles dangles
      rcases ih (piece.chars.foldl Place.step place) with
        ⟨before, other, after, first, refused⟩ | ⟨none, others, resolves⟩
      · left
        refine ⟨piece :: before, other, after,
          (DanglesFirst.cons_iff dangles).mpr ⟨before, rfl, first⟩, ?_⟩
        rw [resolvePieces, read, Outcome.ok_bind, refused]
        rfl
      · right
        refine ⟨fun before other after first => ?_, literal ++ others, fun settings => ?_⟩
        · obtain ⟨later, _, first⟩ := (DanglesFirst.cons_iff dangles).mp first
          exact none later other after first
        · rw [resolvePieces, read, Outcome.ok_bind, resolves]
          rfl

theorem DanglesFirst.unique {pieces before before' after after' : List Piece} {piece' : Piece}
    (first : DanglesFirst grid place pieces before piece after)
    (first' : DanglesFirst grid place pieces before' piece' after') : piece = piece' := by
  induction pieces generalizing place before before' with
  | nil => simpa using first.split
  | cons front pieces ih =>
      by_cases dangles : front.Dangles grid place pieces
      · rw [((iff_of_dangles dangles).mp first).2.1, ((iff_of_dangles dangles).mp first').2.1]
      · obtain ⟨_, _, first⟩ := (cons_iff dangles).mp first
        obtain ⟨_, _, first'⟩ := (cons_iff dangles).mp first'
        exact ih first first'

theorem resolve_strict_eq_error_iff (strict : settings.strictReferences = true) (text name : List Char) :
    resolve grid settings text = .error (.malformedReference name) ↔
      ∃ before piece after, DanglesFirst grid {} (Piece.ofChars text) before piece after ∧
        name = capitals piece.chars := by
  unfold resolve
  rcases @resolvePieces_strict grid settings strict {} (Piece.ofChars text) with
    ⟨before, piece, after, first, refused⟩ | ⟨none, resolved, resolves⟩
  · rw [refused]
    constructor
    · intro same
      cases same
      exact ⟨before, piece, after, first, rfl⟩
    · rintro ⟨_, _, _, first', rfl⟩
      rw [first.unique first']
  · rw [resolves]
    constructor
    · nofun
    · rintro ⟨before, piece, after, first, _⟩
      exact absurd first (none before piece after)

theorem resolve_of_strict (strict : settings.strictReferences = true) {text resolved : List Char}
    (read : resolve grid settings text = .ok resolved) (settings' : Settings) :
    resolve grid settings' text = .ok resolved := by
  unfold resolve at read ⊢
  rcases @resolvePieces_strict grid settings strict {} (Piece.ofChars text) with
    ⟨_, _, _, _, refused⟩ | ⟨_, others, resolves⟩
  · rw [refused] at read
    cases read
  · rw [resolves, ← read, resolves]

end Worksheet
