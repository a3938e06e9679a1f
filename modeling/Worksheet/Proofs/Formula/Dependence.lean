import Mathlib
import Worksheet.Formula.Calculator
import Worksheet.Proofs.Outcome
import Worksheet.Proofs.Reference.Expansion
import Worksheet.Proofs.Reference.Resolution

/-!
# What a formula depends on

A grid enters the value of a formula only through its references, and a reference reads nothing but
the cells that it covers. A range is read as the list of the present cells that it covers, row by
row and from left to right; that order is strict, so the list is the same for all grids that hold
the same values in those cells, whatever the lengths of their rows.
-/

set_option autoImplicit false

namespace Worksheet

variable {first second : Grid}

theorem Range.entries_eq_of_agree {range : Range}
    (agree : ∀ cell, range.covers cell = true → first.get? cell = second.get? cell) :
    range.entries first = range.entries second := by
  refine (range.pairwise_entries first).eq_of_mem_iff (range.pairwise_entries second)
    fun (cell, value) => ?_
  rw [mem_entries, mem_entries]
  exact and_congr_left fun covered => by rw [agree cell covered]

def Piece.RefersTo : Piece → Cell → Prop
  | plain _, _ => False
  | cell token, target => Cell.read? token = some target
  | range token, target => ∃ range, Range.read? token = some range ∧ range.covers target = true

theorem rangeLiteral_eq_of_agree {token : List Char}
    (agree : ∀ cell, (Piece.range token).RefersTo cell → first.get? cell = second.get? cell)
    (settings : Settings) (readsText : Bool) :
    rangeLiteral first settings readsText token = rangeLiteral second settings readsText token := by
  unfold rangeLiteral
  cases read : Range.read? token with
  | none => rfl
  | some range =>
      have same : range.entries first = range.entries second :=
        Range.entries_eq_of_agree fun cell covered => agree cell ⟨range, read, covered⟩
      have cells : range.cells first = range.cells second := congrArg (List.map Prod.fst) same
      have numbers : range.numbers first = range.numbers second :=
        congrArg (fun entries => (entries.map Prod.snd).filterMap Value.cellNumber?) same
      simp only []
      rw [cells, numbers]

theorem cellLiteral_eq_of_agree {token : List Char}
    (agree : ∀ cell, (Piece.cell token).RefersTo cell → first.get? cell = second.get? cell)
    (settings : Settings) (readsText : Bool) :
    cellLiteral first settings readsText token = cellLiteral second settings readsText token := by
  have same : (Cell.read? token).bind first.get? = (Cell.read? token).bind second.get? := by
    cases read : Cell.read? token with
    | none => rfl
    | some cell => exact agree cell read
  unfold cellLiteral
  rw [same]

theorem resolvePiece_eq_of_agree {place : Place} {piece : Piece} {rest : List Piece}
    (agree : place.inside = false → Piece.opensCall rest = false → ∀ cell, piece.RefersTo cell →
      first.get? cell = second.get? cell) (settings : Settings) :
    resolvePiece first settings place piece rest =
      resolvePiece second settings place piece rest := by
  unfold resolvePiece
  by_cases kept : (place.inside || Piece.opensCall rest) = true
  · rw [if_pos kept, if_pos kept]
  · rw [if_neg kept, if_neg kept]
    simp only [Bool.or_eq_true, not_or, Bool.not_eq_true] at kept
    have agrees := agree kept.1 kept.2
    cases piece with
    | plain c => rfl
    | range token => exact rangeLiteral_eq_of_agree agrees settings place.readsText
    | cell token => exact cellLiteral_eq_of_agree agrees settings place.readsText

theorem resolvePieces_eq_of_agree {place : Place} {pieces : List Piece}
    (agree : ∀ front piece back, pieces = front ++ piece :: back →
      endsQuoted place.inside (front.flatMap Piece.chars) = false → Piece.opensCall back = false →
        ∀ cell, piece.RefersTo cell → first.get? cell = second.get? cell) (settings : Settings) :
    resolvePieces first settings place pieces = resolvePieces second settings place pieces := by
  induction pieces generalizing place with
  | nil => rfl
  | cons piece rest ih =>
      have here := resolvePiece_eq_of_agree (agree [] piece rest rfl) settings
      have later : resolvePieces first settings (piece.chars.foldl Place.step place) rest =
          resolvePieces second settings (piece.chars.foldl Place.step place) rest := by
        refine ih fun front other back same outside => ?_
        refine agree (piece :: front) other back (by rw [same]; rfl) ?_
        rw [Place.inside_foldl] at outside
        rw [List.flatMap_cons, endsQuoted_append]
        exact outside
      rw [resolvePieces, resolvePieces, here, later]

/-- A reference of a formula names or covers the cell: it stands outside literals and is not the
name of a call. -/
def Formula.RefersTo (formula : List Char) (cell : Cell) : Prop :=
  ∃ front piece back, Piece.ofChars (body formula) = front ++ piece :: back ∧
    endsQuoted false (front.flatMap Piece.chars) = false ∧ Piece.opensCall back = false ∧
      piece.RefersTo cell

/-- A formula has the same value on all grids that agree on the cells it refers to. -/
theorem Calculator.evaluate_eq_of_agree (calculator : Calculator) {formula : List Char}
    (agree : ∀ cell, Formula.RefersTo formula cell → first.get? cell = second.get? cell) :
    calculator.evaluate formula first = calculator.evaluate formula second := by
  have resolved : resolve first calculator.settings (Formula.body formula) =
      resolve second calculator.settings (Formula.body formula) :=
    resolvePieces_eq_of_agree (fun front piece back split outside notName cell refers =>
      agree cell ⟨front, piece, back, split, outside, notName, refers⟩) calculator.settings
  unfold evaluate
  rw [resolved]

/-- The rows differ in number and in length behind the first column. -/
theorem Calculator.evaluate_eq_of_agree_on_column :
    Calculator.evaluate {} "=SUM(A:A)".toList
        ⟨[[.number 1.0, .number 2.0], [.number 3.0]]⟩ =
      Calculator.evaluate {} "=SUM(A:A)".toList
        ⟨[[.number 1.0], [.number 3.0, .text [], .number 9.0], []]⟩ := by
  refine Calculator.evaluate_eq_of_agree {} fun cell ⟨front, piece, back, split, _, _, refers⟩ => ?_
  have pieces : Piece.ofChars (Formula.body "=SUM(A:A)".toList) =
      [.plain 'S', .plain 'U', .plain 'M', .plain '(', .range "A:A".toList, .plain ')'] := by
    decide +kernel
  have member : piece ∈ Piece.ofChars (Formula.body "=SUM(A:A)".toList) := by
    rw [split]
    exact List.mem_append_right _ List.mem_cons_self
  rw [pieces] at member
  have column : cell.column = 0 := by
    have read : Range.read? "A:A".toList = some (Range.columns 0 0) := by decide +kernel
    simp only [List.mem_cons, List.not_mem_nil, or_false] at member
    rcases member with rfl | rfl | rfl | rfl | rfl | rfl
    · exact refers.elim
    · exact refers.elim
    · exact refers.elim
    · exact refers.elim
    · obtain ⟨range, found, covered⟩ := refers
      obtain rfl := Option.some.inj (read.symm.trans found)
      simp [Range.covers, Range.columns, Range.spanning] at covered
      omega
    · exact refers.elim
  obtain ⟨_, row⟩ := cell
  obtain rfl : _ = 0 := column
  match row with
  | 0 => rfl
  | 1 => rfl
  | 2 => rfl
  | row + 3 => rfl

end Worksheet
