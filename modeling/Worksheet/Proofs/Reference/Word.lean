import Mathlib
import Worksheet.Proofs.Reference.Resolution
import Worksheet.Proofs.Text.Blank

/-!
# Resolving a text word by word

Behind an operand stands the end of the text or a symbol that is no part of any reference. There the
word of a cell is found whole, and in digits and points no reference is found. The text is resolved
from left to right, and what one part of it resolves to does not depend on what the rest resolves
to.
-/

set_option autoImplicit false

namespace Worksheet

namespace Piece

theorem run?_eq_none {member : Char → Bool} {text : List Char}
    (other : ∀ c ∈ text.head?, member c = false) : run? member text = none := by
  have empty : text.takeWhile member = [] := by
    cases text with
    | nil => rfl
    | cons c rest => exact List.takeWhile_cons_of_neg (by simp [other c rfl])
  rw [run?, empty]

theorem run?_append {member : Char → Bool} {taken rest : List Char} (nonempty : taken ≠ [])
    (members : ∀ c ∈ taken, member c = true) (other : ∀ c ∈ rest.head?, member c = false) :
    run? member (taken ++ rest) = some (taken, rest) := by
  obtain ⟨same, left⟩ := takeWhile_run members other
  obtain ⟨first, more, rfl⟩ := List.exists_cons_of_ne_nil nonempty
  rw [run?, same, left]

theorem cellShape?_of_no_letter {text : List Char} (other : ∀ c ∈ text.head?, c.isAlpha = false) :
    cellShape? text = none := by
  rw [cellShape?, run?_eq_none other]
  rfl

theorem cornersShape?_of_no_cell {text : List Char} (none : cellShape? text = none) :
    cornersShape? text = Option.none := by
  rw [cornersShape?, none]
  rfl

theorem cornersShape?_of_no_colon {text taken rest : List Char}
    (first : cellShape? text = some (taken, rest)) (none : spacedColon? rest = none) :
    cornersShape? text = Option.none := by
  rw [cornersShape?, first, Option.bind_eq_bind, Option.bind_some]
  simp only [none, Option.bind_none]

theorem pairShape?_of_no_colon {member : Char → Bool} {taken rest : List Char}
    (nonempty : taken ≠ []) (members : ∀ c ∈ taken, member c = true)
    (other : ∀ c ∈ rest.head?, member c = false) (noColon : rest.head? ≠ some ':') :
    pairShape? member (taken ++ rest) = none := by
  rw [pairShape?, run?_append nonempty members other, Option.bind_eq_bind, Option.bind_some]
  cases rest with
  | nil => rfl
  | cons c rest =>
      have notColon : c ≠ ':' := by simpa using noColon
      simp [notColon]

theorem pairShape?_of_no_member {member : Char → Bool} {text : List Char}
    (other : ∀ c ∈ text.head?, member c = false) : pairShape? member text = none := by
  rw [pairShape?, run?_eq_none other]
  rfl

theorem other_of_edge {neighbour : Option Char} (edge : wordEdge neighbour = true) :
    ∀ c ∈ neighbour, c.isAlphanum = false := by
  intro c member
  have other := isNameChar_of_edge edge c member
  simp only [isNameChar, Bool.or_eq_false_iff] at other
  exact other.1

theorem isDigit_of_edge {neighbour : Option Char} (edge : wordEdge neighbour = true) :
    ∀ c ∈ neighbour, c.isDigit = false := by
  intro c member
  have other := other_of_edge edge c member
  simp only [Char.isAlphanum, Bool.or_eq_false_iff] at other
  exact other.2

theorem isAlpha_head_of_digits {digits : List Char} (allDigits : ∀ c ∈ digits, c.isDigit = true)
    (nonempty : digits ≠ []) (rest : List Char) :
    ∀ c ∈ (digits ++ rest).head?, c.isAlpha = false := by
  obtain ⟨first, more, rfl⟩ := List.exists_cons_of_ne_nil nonempty
  intro c member
  obtain rfl := Option.some.inj member
  exact isAlpha_of_isDigit (allDigits first List.mem_cons_self)

theorem isDigit_head_of_letters {letters : List Char}
    (allLetters : ∀ c ∈ letters, c.isAlpha = true) (nonempty : letters ≠ []) (rest : List Char) :
    ∀ c ∈ (letters ++ rest).head?, c.isDigit = false := by
  obtain ⟨first, more, rfl⟩ := List.exists_cons_of_ne_nil nonempty
  intro c member
  obtain rfl := Option.some.inj member
  by_contra digit
  have letter := allLetters first List.mem_cons_self
  rw [isAlpha_of_isDigit (by simpa using digit)] at letter
  cases letter

theorem cellShape?_append {letters digits rest : List Char} (lettersNonempty : letters ≠ [])
    (digitsNonempty : digits ≠ []) (allLetters : ∀ c ∈ letters, c.isAlpha = true)
    (allDigits : ∀ c ∈ digits, c.isDigit = true) (noDigit : ∀ c ∈ rest.head?, c.isDigit = false) :
    cellShape? (letters ++ (digits ++ rest)) = some (letters ++ digits, rest) := by
  have lettersRun := run?_append lettersNonempty allLetters
    (isAlpha_head_of_digits allDigits digitsNonempty rest)
  have digitsRun := run?_append digitsNonempty allDigits noDigit
  rw [cellShape?, lettersRun, Option.bind_eq_bind, Option.bind_some]
  simp only [digitsRun]
  rfl

end Piece

/-- What follows an operand: neither a word nor a blank, a colon or an opening parenthesis. -/
structure EndsOperand (rest : List Char) : Prop where
  edge : wordEdge rest.head? = true
  apart : ∀ c ∈ rest.head?, isBlank c = false ∧ c ≠ ':' ∧ c ≠ '('

namespace EndsOperand

variable {rest : List Char} (ends : EndsOperand rest)
include ends

theorem notDigit : ∀ c ∈ rest.head?, c.isDigit = false :=
  Piece.isDigit_of_edge ends.edge

theorem notColon : rest.head? ≠ some ':' :=
  fun colon => (ends.apart ':' colon).2.1 rfl

theorem notOpening : rest.head? ≠ some '(' :=
  fun opening => (ends.apart '(' opening).2.2 rfl

theorem spacedColon?_eq_none : Piece.spacedColon? rest = none := by
  have visible : rest.dropWhile isBlank = rest := by
    cases rest with
    | nil => rfl
    | cons c more => exact List.dropWhile_cons_of_neg (by simp [(ends.apart c rfl).1])
  unfold Piece.spacedColon?
  rw [visible]
  split
  · exact absurd rfl ends.notColon
  · rfl

end EndsOperand

namespace Piece

variable {rest : List Char}

/-- No reference begins in the digits and points of a number. -/
theorem reference?_of_number {digits : List Char} (nonempty : digits ≠ [])
    (numeric : ∀ c ∈ digits, Token.isNumberChar c = true)
    (notDigit : ∀ c ∈ rest.head?, c.isDigit = false) (notColon : rest.head? ≠ some ':') :
    reference? (digits ++ rest) = none := by
  have noLetter : ∀ c ∈ (digits ++ rest).head?, c.isAlpha = false := by
    intro c member
    obtain ⟨first, more, rfl⟩ := List.exists_cons_of_ne_nil nonempty
    obtain rfl := Option.some.inj member
    have number := numeric first List.mem_cons_self
    simp only [Token.isNumberChar, Bool.or_eq_true, beq_iff_eq] at number
    rcases number with digit | rfl
    · exact isAlpha_of_isDigit digit
    · decide
  have behind : ∀ c ∈ (digits.dropWhile Char.isDigit ++ rest).head?, c.isDigit = false ∧ c ≠ ':' := by
    cases left : digits.dropWhile Char.isDigit with
    | nil =>
        intro c member
        refine ⟨notDigit c member, ?_⟩
        rintro rfl
        exact notColon member
    | cons d more =>
        intro c member
        obtain rfl := Option.some.inj member
        have notDigit := List.head?_dropWhile_not Char.isDigit digits
        rw [left] at notDigit
        refine ⟨notDigit, ?_⟩
        rintro rfl
        have number := numeric ':' ((List.dropWhile_sublist _).subset (left ▸ List.mem_cons_self))
        revert number
        decide
  have noRows : pairShape? Char.isDigit (digits ++ rest) = none := by
    rw [← @List.takeWhile_append_dropWhile _ Char.isDigit digits, List.append_assoc]
    by_cases point : digits.takeWhile Char.isDigit = []
    · rw [point]
      exact pairShape?_of_no_member fun c member => (behind c member).1
    · refine pairShape?_of_no_colon point (fun c member => List.mem_takeWhile_imp member)
        (fun c member => (behind c member).1) fun colon => ?_
      exact (behind ':' colon).2 rfl
  have noCell := cellShape?_of_no_letter noLetter
  simp [reference?, noCell, cornersShape?_of_no_cell noCell, pairShape?_of_no_member noLetter,
    noRows, word?]

theorem reference?_of_word (ends : EndsOperand rest) {letters digits : List Char} (lettersNonempty : letters ≠ [])
    (digitsNonempty : digits ≠ []) (allLetters : ∀ c ∈ letters, c.isAlpha = true)
    (allDigits : ∀ c ∈ digits, c.isDigit = true) :
    reference? (letters ++ (digits ++ rest)) = some (cell (letters ++ digits)) := by
  have shape := cellShape?_append lettersNonempty digitsNonempty allLetters allDigits ends.notDigit
  have noColumns : pairShape? Char.isAlpha (letters ++ (digits ++ rest)) = none := by
    refine pairShape?_of_no_colon lettersNonempty allLetters
      (isAlpha_head_of_digits allDigits digitsNonempty rest) ?_
    obtain ⟨first, more, rfl⟩ := List.exists_cons_of_ne_nil digitsNonempty
    have digit := allDigits first List.mem_cons_self
    intro same
    obtain rfl := Option.some.inj same
    revert digit
    decide
  have noRows : pairShape? Char.isDigit (letters ++ (digits ++ rest)) = none :=
    pairShape?_of_no_member (isDigit_head_of_letters allLetters lettersNonempty _)
  simp [reference?, shape, cornersShape?_of_no_colon shape ends.spacedColon?_eq_none, noColumns,
    noRows, word?, ends.edge]

end Piece

variable {grid : Grid} {settings : Settings}

/-- From one place a part of a text resolves to a literal and leads to another place, whatever the
rest behind it resolves to. -/
def Resolves (grid : Grid) (settings : Settings) (rest : List Char) (place : Place)
    (text literal : List Char) (after : Place) : Prop :=
  resolvePieces grid settings place (Piece.ofCharsAfter place.behind.head? (text ++ rest)) =
    (literal ++ ·) <$>
      resolvePieces grid settings after (Piece.ofCharsAfter after.behind.head? rest)

theorem resolves_nil (rest : List Char) (place : Place) :
    Resolves grid settings rest place [] [] place := by
  simp [Resolves]

theorem Resolves.append {rest : List Char} {place middle after : Place}
    {first second literal literal' : List Char}
    (left : Resolves grid settings (second ++ rest) place first literal middle)
    (right : Resolves grid settings rest middle second literal' after) :
    Resolves grid settings rest place (first ++ second) (literal ++ literal') after := by
  unfold Resolves at left right ⊢
  rw [List.append_assoc, left, right]
  cases resolvePieces grid settings after (Piece.ofCharsAfter after.behind.head? rest) <;> simp

theorem Resolves.resolve_eq {text literal : List Char} {after : Place}
    (resolves : Resolves grid settings [] {} text literal after) :
    resolve grid settings text = .ok literal := by
  unfold Resolves at resolves
  rw [List.append_nil, Piece.ofCharsAfter_nil, resolvePieces] at resolves
  rw [resolve, Piece.ofChars]
  simpa using resolves

theorem resolves_char {c : Char} {rest : List Char} (place : Place)
    (none : Piece.reference? (c :: rest) = none) :
    Resolves grid settings rest place [c] [c] (place.step c) := by
  have itself : resolvePiece grid settings place (.plain c) (Piece.ofCharsAfter (some c) rest) =
      .ok [c] := by
    unfold resolvePiece
    split <;> rfl
  unfold Resolves
  rw [List.singleton_append, Piece.ofCharsAfter_of_none fun _ => none, resolvePieces, itself]
  have next : [c].foldl Place.step place = place.step c := rfl
  have head : (place.step c).behind.head? = some c := rfl
  rw [Outcome.ok_bind, Piece.chars, next, head]
  cases resolvePieces grid settings (place.step c) (Piece.ofCharsAfter (some c) rest) <;> rfl

theorem resolves_run {text rest : List Char} (place : Place)
    (none : ∀ c after, (c :: after) <:+ text → Piece.reference? (c :: (after ++ rest)) = none) :
    Resolves grid settings rest place text text (text.foldl Place.step place) := by
  induction text generalizing place with
  | nil => exact resolves_nil rest place
  | cons c more ih =>
      have first : Resolves grid settings (more ++ rest) place [c] [c] (place.step c) :=
        resolves_char place (none c more (List.suffix_refl _))
      exact first.append (ih (place.step c) fun d after suffix =>
        none d after (suffix.trans (List.suffix_cons c more)))

theorem resolves_number {digits rest : List Char}
    (numeric : ∀ c ∈ digits, Token.isNumberChar c = true)
    (notDigit : ∀ c ∈ rest.head?, c.isDigit = false) (notColon : rest.head? ≠ some ':')
    (place : Place) :
    Resolves grid settings rest place digits digits (digits.foldl Place.step place) :=
  resolves_run place fun c after suffix =>
    Piece.reference?_of_number (List.cons_ne_nil c after)
      (fun d member => numeric d (suffix.subset member)) notDigit notColon

theorem resolves_reference {piece : Piece} {rest literal : List Char} {place : Place}
    (edge : wordEdge place.behind.head? = true)
    (found : Piece.reference? (piece.chars ++ rest) = some piece) (closed : rest.head? ≠ some '(')
    (read : ∀ others, Piece.opensCall others = false →
      resolvePiece grid settings place piece others = .ok literal) :
    Resolves grid settings rest place piece.chars literal (piece.chars.foldl Place.step place) := by
  obtain ⟨behind, starts⟩ := Piece.starts_of_reference? found
  obtain rfl : behind = rest := (List.append_cancel_left starts.text_eq).symm
  have notCall : Piece.opensCall (Piece.ofCharsAfter piece.chars.getLast? behind) = false := by
    rw [Bool.eq_false_iff]
    intro opens
    exact closed ((Piece.opensCall_ofCharsAfter _ _).mp opens)
  have last : (piece.chars.foldl Place.step place).behind.head? = piece.chars.getLast? := by
    obtain ⟨first, more, begins, _⟩ := starts.begins
    rw [Place.behind_foldl, List.head?_append, List.head?_reverse, begins, List.getLast?_cons]
    rfl
  unfold Resolves
  rw [Piece.ofCharsAfter_of_starts edge found starts, resolvePieces, read _ notCall, last,
    Outcome.ok_bind]
  cases resolvePieces grid settings (piece.chars.foldl Place.step place)
    (Piece.ofCharsAfter piece.chars.getLast? behind) <;> rfl

end Worksheet
