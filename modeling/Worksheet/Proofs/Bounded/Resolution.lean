import Mathlib
import Worksheet.Proofs.Bounded.Context
import Worksheet.Proofs.Reference.Expansion
import Worksheet.Proofs.Reference.Part
import Worksheet.Proofs.Reference.Pattern

/-!
# Resolving references by offsets

A reference is replaced with what is known about its first byte and with a look at the text from its
end on. A range asks each of its rows for its length. All this stays within bounds: a reference ends
where a character begins, and a range is drawn in to the rows that the grid has. The first error is
kept while the text is read to its end.
-/

set_option autoImplicit false

namespace Worksheet

open Script (byteSize byteSize_append)

theorem mapM_eq_some_map {α β : Type} {f : α → Option β} {g : α → β} {list : List α}
    (found : ∀ a ∈ list, f a = some (g a)) : list.mapM f = some (list.map g) := by
  induction list with
  | nil => rfl
  | cons first rest ih =>
      rw [List.mapM_cons, found first List.mem_cons_self,
        ih fun a member => found a (List.mem_cons_of_mem _ member)]
      rfl

namespace Range

def cellsAt? (range : Range) (grid : Grid) : Option (List Cell) :=
  match grid.rowCount with
  | 0 => some []
  | lastRow + 1 => do
      let rows ← (inclusive range.first.row (min range.last.row lastRow)).mapM fun row => do
        let values ← grid.rows[row]?
        return range.walkRow row values.length
      return rows.flatten

theorem cellsAt?_eq (range : Range) (grid : Grid) :
    range.cellsAt? grid = some (range.cells grid) := by
  rw [cells_eq_walk, cellsAt?, walk]
  cases count : grid.rowCount with
  | zero => rfl
  | succ lastRow =>
      have rows : (inclusive range.first.row (min range.last.row lastRow)).mapM
          (fun row => do
            let values ← grid.rows[row]?
            return range.walkRow row values.length) =
          some ((inclusive range.first.row (min range.last.row lastRow)).map fun row =>
            range.walkRow row (grid.width row)) := by
        refine mapM_eq_some_map fun row member => ?_
        have below : row < grid.rows.length := by
          have bound := (mem_inclusive.mp member).2
          rw [Grid.rowCount] at count
          omega
        rw [Grid.width, List.getElem?_eq_getElem below]
        rfl
      dsimp only
      rw [rows]
      rfl

end Range

def rangeLiteralAt (grid : Grid) (settings : Settings) (readsText : Bool) (token : List Char) :
    Bounded (List Char) :=
  if readsText then return token
  else
    match Range.read? token with
    | none => Bounded.within (unresolved settings token emptyRangeLiteral)
    | some range => do
        let cells ← Bounded.reach (range.cellsAt? grid)
        if settings.strictReferences && cells.isEmpty then
          Bounded.within (unresolved settings token emptyRangeLiteral)
        else
          return numbersLiteral (cells.filterMap fun cell => (grid.get? cell).bind Value.cellNumber?)

theorem rangeLiteralAt_eq (grid : Grid) (settings : Settings) (readsText : Bool)
    (token : List Char) :
    rangeLiteralAt grid settings readsText token =
      Bounded.within (rangeLiteral grid settings readsText token) := by
  rw [rangeLiteralAt, rangeLiteral]
  split
  · rfl
  · cases Range.read? token with
    | none => rfl
    | some range =>
        dsimp only
        rw [Range.cellsAt?_eq, Bounded.reach_some, pure_bind, ← Range.numbers_eq]
        split <;> rfl

def referenceLiteralAt (grid : Grid) (settings : Settings) (readsText : Bool) :
    Piece → Bounded (List Char)
  | .plain c => return [c]
  | .range token => rangeLiteralAt grid settings readsText token
  | .cell token => Bounded.within (cellLiteral grid settings readsText token)

abbrev Substituted : Type :=
  List Char × Option FormulaError

/-- Replaces a reference, unless it lies in a literal, names a call, or there has been an error. -/
def substituteOne (grid : Grid) (settings : Settings) (context : Context) (behind : List Char)
    (piece : Piece) (failure : Option FormulaError) : Option Substituted := do
  if context.inside || behind.head? == some '(' || failure.isSome then return (piece.chars, failure)
  else
    match ← (referenceLiteralAt grid settings context.readsText piece).run with
    | .ok literal => return (literal, none)
    | .error error => return (piece.chars, some error)

/-- Replaces the references among the pieces of a text that begin at an offset. -/
def substituteFrom (grid : Grid) (settings : Settings) (text : List Char) (contexts : List Context)
    (offset : Nat) (failure : Option FormulaError) : List Piece → Option Substituted
  | [] => return ([], failure)
  | .plain c :: rest => do
      let (others, failure) ←
        substituteFrom grid settings text contexts (offset + c.utf8Size) failure rest
      return (c :: others, failure)
  | piece :: rest => do
      let stop := offset + byteSize piece.chars
      let context := contexts[offset]?.getD .unknown
      let behind ← slice? text stop (byteSize text)
      let (literal, failure) ← substituteOne grid settings context behind piece failure
      let (others, failure) ← substituteFrom grid settings text contexts stop failure rest
      return (literal ++ others, failure)

def resolveAt (grid : Grid) (settings : Settings) (text : List Char) : Bounded (List Char) := do
  let contexts ← classify text
  match ← Bounded.reach (substituteFrom grid settings text contexts 0 none (Piece.ofChars text)) with
  | (substituted, none) => return substituted
  | (_, some error) => throw error

section

variable {grid : Grid} {settings : Settings}

theorem referenceLiteralAt_eq {piece : Piece} {place : Place} {others : List Piece}
    (replaced : (place.inside || Piece.opensCall others) = false) :
    referenceLiteralAt grid settings place.readsText piece =
      Bounded.within (resolvePiece grid settings place piece others) := by
  unfold resolvePiece
  rw [replaced, if_neg Bool.false_ne_true]
  cases piece with
  | plain c => rfl
  | range token => exact rangeLiteralAt_eq grid settings place.readsText token
  | cell token => rfl

def unlessFailed (failure : Option FormulaError) (next : Except FormulaError (List Char)) :
    Except FormulaError (List Char) :=
  match failure with
  | some error => .error error
  | none => next

def Substituted.outcome (substituted : Substituted) : Except FormulaError (List Char) :=
  unlessFailed substituted.2 (.ok substituted.1)

theorem Substituted.outcome_append (literal others : List Char) (failure : Option FormulaError) :
    outcome (literal ++ others, failure) = (literal ++ ·) <$> outcome (others, failure) := by
  cases failure <;> rfl

theorem substituteOne_eq {piece : Piece} {place : Place} {others : List Piece} {behind : List Char}
    (opens : Piece.opensCall others = true ↔ behind.head? = some '(')
    (failure : Option FormulaError) :
    substituteOne grid settings ⟨place.inside, place.readsText⟩ behind piece failure =
      some (match failure, resolvePiece grid settings place piece others with
        | some error, _ => (piece.chars, some error)
        | none, .ok literal => (literal, none)
        | none, .error error => (piece.chars, some error)) := by
  have opens' : (behind.head? == some '(') = Piece.opensCall others := by
    rw [Bool.eq_iff_iff, beq_iff_eq, opens]
  rw [substituteOne, opens']
  cases failure with
  | some error => simp
  | none =>
      rw [Option.isSome_none, Bool.or_false]
      cases replaced : place.inside || Piece.opensCall others with
      | true =>
          have kept : resolvePiece grid settings place piece others = .ok piece.chars := by
            unfold resolvePiece
            rw [replaced, if_pos rfl]
          rw [if_pos rfl, kept]
          rfl
      | false =>
          rw [if_neg Bool.false_ne_true]
          dsimp only
          rw [referenceLiteralAt_eq replaced]
          cases resolvePiece grid settings place piece others <;> rfl

theorem Piece.Starts.getElem?_contexts {script front text rest : List Char} {piece : Piece}
    (starts : Starts text piece rest) (whole : script = front ++ text) :
    (({} : Place).contexts script)[byteSize front]? =
      some ⟨(front.foldl Place.step {}).inside, (front.foldl Place.step {}).readsText⟩ := by
  obtain ⟨first, more, begins, alphanumeric⟩ := starts.begins
  have notQuote : (first == '"') = false := by
    rw [beq_eq_false_iff_ne]
    rintro rfl
    revert alphanumeric
    decide
  have start : script = front ++ first :: (more ++ rest) := by
    rw [whole, starts.text_eq, begins, List.cons_append]
  rw [start, Place.getElem?_contexts, notQuote, Bool.or_false]

theorem substituteFrom_reference {text : List Char} {contexts : List Context} {offset : Nat}
    {failure : Option FormulaError} {piece : Piece} {rest : List Piece}
    (notPlain : ∀ c, piece ≠ .plain c) :
    substituteFrom grid settings text contexts offset failure (piece :: rest) = (do
      let behind ← slice? text (offset + byteSize piece.chars) (byteSize text)
      let (literal, failure) ←
        substituteOne grid settings (contexts[offset]?.getD .unknown) behind piece failure
      let (others, failure) ← substituteFrom grid settings text contexts
        (offset + byteSize piece.chars) failure rest
      return (literal ++ others, failure)) := by
  cases piece with
  | plain c => exact absurd rfl (notPlain c)
  | range token => rfl
  | cell token => rfl

theorem substituteFrom_of_starts {script front text rest : List Char} {piece : Piece}
    (starts : Piece.Starts text piece rest) (notPlain : ∀ c, piece ≠ .plain c)
    (whole : script = front ++ text) (failure : Option FormulaError) (others : List Piece) :
    substituteFrom grid settings script (({} : Place).contexts script) (byteSize front) failure
        (piece :: others) = (do
      let (literal, failure) ← substituteOne grid settings
        ⟨(front.foldl Place.step {}).inside, (front.foldl Place.step {}).readsText⟩ rest piece
        failure
      let (others, failure) ← substituteFrom grid settings script
        (({} : Place).contexts script) (byteSize (front ++ piece.chars)) failure others
      return (literal ++ others, failure)) := by
  have behind : script = (front ++ piece.chars) ++ rest := by
    rw [whole, starts.text_eq, List.append_assoc]
  have stop : byteSize front + byteSize piece.chars = byteSize (front ++ piece.chars) :=
    (byteSize_append _ _).symm
  have part : slice? script (byteSize (front ++ piece.chars)) (byteSize script) = some rest :=
    slice?_append (by rw [behind, List.append_nil]) rfl (by rw [behind, byteSize_append])
  rw [substituteFrom_reference notPlain, stop, starts.getElem?_contexts whole, part]
  rfl

/-- The pieces behind the start of a text are replaced within bounds, and they come to what they
resolve to, unless there has been a failure before. -/
theorem exists_substituteFrom (grid : Grid) (settings : Settings) {script : List Char}
    (previous : Option Char) (text : List Char) :
    ∀ front (failure : Option FormulaError), script = front ++ text →
      ∃ substituted, substituteFrom grid settings script (({} : Place).contexts script)
          (byteSize front) failure (Piece.ofCharsAfter previous text) = some substituted ∧
        substituted.outcome = unlessFailed failure
          (resolvePieces grid settings (front.foldl Place.step {})
            (Piece.ofCharsAfter previous text)) := by
  induction previous, text using Piece.ofCharsAfter_induction with
  | nil previous =>
      intro front failure _
      refine ⟨([], failure), rfl, ?_⟩
      cases failure <;> rfl
  | reference previous text piece rest edge found starts ih =>
      intro front failure whole
      have behind : script = (front ++ piece.chars) ++ rest := by
        rw [whole, starts.text_eq, List.append_assoc]
      have notPlain (c : Char) : piece ≠ .plain c := by
        rintro rfl
        cases Piece.matches_iff.mpr ⟨edge, found, starts.text_eq⟩
      -- What stands behind the reference is put behind the text that it has become.
      have onward (literal : List Char) (later : Option FormulaError) :
          ∃ substituted, (do
              let (others, failure) ← substituteFrom grid settings script
                (({} : Place).contexts script) (byteSize (front ++ piece.chars)) later
                (Piece.ofCharsAfter piece.chars.getLast? rest)
              return (literal ++ others, failure)) = some substituted ∧
            Substituted.outcome substituted = (literal ++ ·) <$> unlessFailed later
              (resolvePieces grid settings
                (piece.chars.foldl Place.step (front.foldl Place.step {}))
                (Piece.ofCharsAfter piece.chars.getLast? rest)) := by
        obtain ⟨⟨others, last⟩, read, outcome⟩ := ih (front ++ piece.chars) later behind
        rw [List.foldl_append] at outcome
        exact ⟨(literal ++ others, last), by rw [read]; rfl,
          by rw [Substituted.outcome_append, outcome]⟩
      have one := @substituteOne_eq grid settings piece (front.foldl Place.step {}) _ rest
        (Piece.opensCall_ofCharsAfter piece.chars.getLast? rest) failure
      rw [substituteFrom_of_starts starts notPlain whole, one, resolvePieces]
      cases failure with
      | some error => exact onward piece.chars (some error)
      | none =>
          cases resolvePiece grid settings (front.foldl Place.step {}) piece
              (Piece.ofCharsAfter piece.chars.getLast? rest) with
          | error error => exact onward piece.chars (some error)
          | ok literal =>
              rw [Outcome.ok_bind, bind_pure_comp]
              exact onward literal none
  | plain previous c rest none ih =>
      intro front failure whole
      obtain ⟨⟨others, later⟩, found, outcome⟩ := ih (front ++ [c]) failure (by simp [whole])
      have stop : byteSize front + c.utf8Size = byteSize (front ++ [c]) :=
        (byteSize_concat front c).symm
      rw [List.foldl_append] at outcome
      refine ⟨([c] ++ others, later), ?_, ?_⟩
      · rw [substituteFrom, stop, found]
        rfl
      · rw [Substituted.outcome_append, outcome, resolvePieces, resolvePiece_plain]
        cases failure <;> rfl

end

theorem resolveAt_eq (grid : Grid) (settings : Settings) (text : List Char) :
    resolveAt grid settings text = Bounded.within (resolve grid settings text) := by
  obtain ⟨⟨substituted, failure⟩, found, outcome⟩ :=
    @exists_substituteFrom grid settings text none text [] none rfl
  have resolved : resolve grid settings text = Substituted.outcome (substituted, failure) :=
    outcome.symm
  rw [resolveAt, classify_eq, pure_bind, resolved]
  change (Bounded.reach (substituteFrom grid settings text _ (byteSize []) none
    (Piece.ofCharsAfter none text)) >>= _) = _
  rw [found]
  cases failure <;> rfl

end Worksheet
