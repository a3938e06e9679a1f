import Mathlib
import Worksheet.Proofs.Reference.Piece
import Worksheet.Proofs.Script.Calls
import Worksheet.Reference.Resolution

/-!
# Resolving keeps the structure of a text

Whatever a cell holds, its reference reads as a literal that matches its own quotes and
parentheses and calls nothing. A reference is a word, so what stands in front of its literal and
behind it is no part of a name. So resolving changes neither the names that a text calls nor how
its parentheses and quotes match.
-/

set_option autoImplicit false

namespace Worksheet

theorem isFinite_of_cellNumber? {value : Value} {x : Float} (found : value.cellNumber? = some x) :
    x.isFinite = true :=
  (Option.filter_eq_some_iff.mp found).2

theorem isFinite_of_mem_numbers {range : Range} {grid : Grid} {x : Float}
    (member : x ∈ range.numbers grid) : x.isFinite = true := by
  obtain ⟨value, _, found⟩ := List.mem_filterMap.mp member
  exact isFinite_of_cellNumber? found

theorem eq_of_unresolved {settings : Settings} {token fallback literal : List Char}
    (found : unresolved settings token fallback = .ok literal) : literal = fallback := by
  unfold unresolved at found
  split at found <;> cases found
  rfl

theorem isOperandText_cellOperand (value : Value) : IsOperandText (cellOperand value) := by
  unfold cellOperand
  split
  · rename_i x found
    exact isOperandText_numberLiteral (isFinite_of_cellNumber? found)
  · split
    · split
      · exact isOperandText_of_flat rfl
      · exact isOperandText_of_flat (isFlat_quoted _)
    · exact isOperandText_of_flat rfl

theorem IsOperandText.comma {first second : List Char} (left : IsOperandText first)
    (right : IsOperandText second) : IsOperandText (first ++ ',' :: second) := by
  refine ⟨?_, fun behind nameless => ?_⟩
  · obtain ⟨script, read⟩ := right.read
    apply Script.ofChars_of_check
    have checked := right.check_eq 0 []
    rw [List.append_nil] at checked
    rw [left.check_eq]
    exact checked
  · rw [left.callNamesFrom_eq nameless]
    change callNamesFrom false (',' :: (first.reverse ++ behind)) second = []
    exact right.calls_none _ (stopsName_cons (by decide) _).nameBehind?_eq

theorem isOperandText_numbersLiteral {numbers : List Float}
    (finite : ∀ x ∈ numbers, x.isFinite = true) : IsOperandText (numbersLiteral numbers) := by
  cases numbers with
  | nil => exact isOperandText_group (by rfl : isFlat false [] = true)
  | cons first rest =>
      change IsOperandText ([','].intercalate ((first :: rest).map numberLiteral))
      induction rest generalizing first with
      | nil =>
          simpa [List.intercalate] using isOperandText_numberLiteral (finite first (by simp))
      | cons second rest ih =>
          have tail := ih second fun x member => finite x (List.mem_cons_of_mem _ member)
          have head := isOperandText_numberLiteral (finite first (by simp))
          simpa [List.intercalate] using head.comma tail

theorem isOperandText_rangeLiteral {grid : Grid} {settings : Settings} {readsText : Bool}
    {token literal : List Char} (flat : isFlat false token = true)
    (read : rangeLiteral grid settings readsText token = .ok literal) : IsOperandText literal := by
  have empty : IsOperandText emptyRangeLiteral := isOperandText_group (by rfl : isFlat false [] = true)
  have nothing (found : unresolved settings token emptyRangeLiteral = .ok literal) :
      IsOperandText literal := eq_of_unresolved found ▸ empty
  unfold rangeLiteral at read
  split at read
  · cases read
    exact isOperandText_of_flat flat
  · split at read
    · exact nothing read
    · split at read
      · exact nothing read
      · cases read
        exact isOperandText_numbersLiteral fun _ => isFinite_of_mem_numbers

theorem isOperandText_cellLiteral {grid : Grid} {settings : Settings} {readsText : Bool}
    {token literal : List Char}
    (read : cellLiteral grid settings readsText token = .ok literal) : IsOperandText literal := by
  unfold cellLiteral at read
  split at read
  · rw [eq_of_unresolved read]
    split
    · exact isOperandText_of_flat (isFlat_quoted [])
    · exact isOperandText_of_flat rfl
  · cases read
    split
    · exact isOperandText_of_flat (isFlat_quoted _)
    · exact isOperandText_cellOperand _

theorem Place.inside_foldl (chars : List Char) (place : Place) :
    (chars.foldl Place.step place).inside = endsQuoted place.inside chars := by
  induction chars generalizing place with
  | nil => rfl
  | cons c rest ih => exact ih _

theorem Place.behind_foldl (chars : List Char) (place : Place) :
    (chars.foldl Place.step place).behind = chars.reverse ++ place.behind := by
  induction chars generalizing place with
  | nil => rfl
  | cons c rest ih => simp [ih, Place.step]

namespace Piece

theorem isReferenceChar_ne {c : Char} (member : isReferenceChar c = true) :
    c ≠ '"' ∧ c ≠ '(' ∧ c ≠ ')' := by
  refine ⟨?_, ?_, ?_⟩ <;> (rintro rfl; revert member; decide)

theorem isNameChar_of_isAlphanum {c : Char} (alphanumeric : c.isAlphanum = true) :
    isNameChar c = true := by
  simp [isNameChar, alphanumeric]

theorem isNameChar_of_edge {neighbour : Option Char} (edge : wordEdge neighbour = true) :
    ∀ c ∈ neighbour, isNameChar c = false := by
  intro c member
  have other : isWord c = false := by
    rw [Option.mem_def.mp member] at edge
    simpa [wordEdge] using edge
  simp only [isWord, Bool.or_eq_false_iff] at other
  simp [isNameChar, other.1.1, other.1.2]

/-- Pieces open a call exactly when a parenthesis is the first character of their text. -/
theorem opensCall_ofCharsAfter (previous : Option Char) (text : List Char) :
    opensCall (ofCharsAfter previous text) = true ↔ text.head? = some '(' := by
  induction previous, text using ofCharsAfter_induction with
  | nil previous => simp [opensCall]
  | reference previous text piece rest _ _ starts _ =>
      obtain ⟨⟨text_eq, ⟨first, more, begins, alphanumeric⟩, _⟩, _⟩ := starts
      have notOpening : first ≠ '(' := by
        rintro rfl
        revert alphanumeric
        decide
      have head : text.head? = some first := by rw [text_eq, begins]; rfl
      rw [head]
      cases piece with
      | plain c =>
          obtain rfl : c = first := (List.cons.inj begins).1
          simp [opensCall, notOpening]
      | range token => simp [opensCall, notOpening]
      | cell token => simp [opensCall, notOpening]
  | plain previous c rest _ _ =>
      rw [List.head?_cons]
      constructor
      · intro opens
        by_cases same : c = '('
        · rw [same]
        · simp [opensCall, same] at opens
      · intro same
        obtain rfl := Option.some.inj same
        rfl

end Piece

theorem callNamesFrom_plain (inside : Bool) (behind : List Char) {first : List Char}
    (plain : IsPlain first) (second : List Char) :
    callNamesFrom inside behind (first ++ second) =
      callNamesFrom inside (first.reverse ++ behind) second := by
  induction first generalizing behind with
  | nil => rfl
  | cons c rest ih =>
      obtain ⟨notQuote, notOpening, _⟩ := plain c List.mem_cons_self
      simp only [List.cons_append, callNamesFrom, notQuote, notOpening, false_and, if_false,
        List.nil_append]
      rw [ih _ fun c member => plain c (List.mem_cons_of_mem _ member)]
      simp

/-! ## Resolving -/

/-- Two texts, given backwards, in front of the same text: a name that reaches back into either
is the same, or none does. -/
def SameNames (behind behind' text : List Char) : Prop :=
  (∀ near, nameBehind? (near ++ behind) = nameBehind? (near ++ behind')) ∨
    ∀ c ∈ text.head?, isNameChar c = false ∧ c ≠ '('

theorem SameNames.cons {behind behind' rest : List Char} {c : Char}
    (same : SameNames behind behind' (c :: rest)) :
    SameNames (c :: behind) (c :: behind') rest := by
  refine .inl fun near => ?_
  rcases same with same | stops
  · have shifted := same (near ++ [c])
    simpa using shifted
  · have other := (stops c rfl).1
    rw [nameBehind?_append_of_stops near (stopsName_cons other behind),
      nameBehind?_append_of_stops near (stopsName_cons other behind')]

theorem SameNames.nameBehind?_eq {behind behind' rest : List Char} {c : Char}
    (same : SameNames behind behind' (c :: rest)) (opens : c = '(') :
    nameBehind? behind = nameBehind? behind' := by
  rcases same with same | stops
  · exact same []
  · exact absurd opens (stops c rfl).2

theorem SameNames.nameless {place : Place} {behind text rest : List Char} {piece : Piece}
    (same : SameNames place.behind behind text) (edge : wordEdge place.behind.head? = true)
    (starts : Piece.Starts text piece rest) : nameBehind? behind = none := by
  obtain ⟨first, more, begins, alphanumeric⟩ := starts.begins
  have stops : StopsName place.behind := fun c member => Piece.isNameChar_of_edge edge c member
  rw [← stops.nameBehind?_eq]
  rcases same with shared | notName
  · exact (shared []).symm
  · have other := (notName first (by rw [starts.text_eq, begins]; rfl)).1
    rw [Piece.isNameChar_of_isAlphanum alphanumeric] at other
    cases other

section Sequence

variable {grid : Grid} {settings : Settings}

theorem resolvePiece_plain (place : Place) (c : Char) (later : List Piece) :
    resolvePiece grid settings place (.plain c) later = .ok [c] := by
  unfold resolvePiece
  split <;> rfl

theorem resolvePieces_cons_eq_ok_iff {place : Place} {piece : Piece} {rest : List Piece}
    {output : List Char} :
    resolvePieces grid settings place (piece :: rest) = .ok output ↔
      ∃ literal, resolvePiece grid settings place piece rest = .ok literal ∧
        ∃ others, resolvePieces grid settings (piece.chars.foldl Place.step place) rest =
          .ok others ∧ output = literal ++ others := by
  simp only [resolvePieces, Outcome.bind_eq_ok, Outcome.pure_eq, Except.ok.injEq,
    @eq_comm _ output]

theorem resolvePieces_plain_eq_ok_iff {place : Place} {c : Char} {rest : List Piece}
    {output : List Char} :
    resolvePieces grid settings place (.plain c :: rest) = .ok output ↔
      ∃ others, resolvePieces grid settings (place.step c) rest = .ok others ∧
        output = c :: others := by
  rw [resolvePieces_cons_eq_ok_iff, resolvePiece_plain]
  simp only [Except.ok.injEq, exists_eq_left', List.singleton_append]
  rfl

end Sequence

theorem resolvePiece_cases {grid : Grid} {settings : Settings} {place : Place} {piece : Piece}
    {rest : List Piece} {literal : List Char} (flat : isFlat false piece.chars = true)
    (read : resolvePiece grid settings place piece rest = .ok literal) :
    literal = piece.chars ∨
      place.inside = false ∧ Piece.opensCall rest = false ∧ IsOperandText literal := by
  unfold resolvePiece at read
  split at read
  · cases read
    exact .inl rfl
  · rename_i outside
    simp only [Bool.or_eq_true, not_or, Bool.not_eq_true] at outside
    right
    refine ⟨outside.1, outside.2, ?_⟩
    cases piece with
    | plain c =>
        cases read
        exact isOperandText_of_flat flat
    | range token => exact isOperandText_rangeLiteral flat read
    | cell token => exact isOperandText_cellLiteral read

/-- Behind a reference the same names reach back, whether the text holds the reference or what it
reads as. -/
theorem SameNames.reference {grid : Grid} {settings : Settings} {place : Place} {piece : Piece}
    {behind text rest literal : List Char} {others : List Piece}
    (same : SameNames place.behind behind text) (starts : Piece.Starts text piece rest)
    (lookahead : rest.head? = some '(' → Piece.opensCall others = true)
    (read : resolvePiece grid settings place piece others = .ok literal) :
    SameNames (piece.chars.reverse ++ place.behind) (literal.reverse ++ behind) rest := by
  obtain ⟨⟨rfl, ⟨first, more, begins, alphanumeric⟩, members⟩, ends⟩ := starts
  have plain : IsPlain piece.chars := fun c member => Piece.isReferenceChar_ne (members c member)
  rcases resolvePiece_cases (isFlat_of_plain plain) read with rfl | ⟨_, notOpening, _⟩
  · -- the reference begins with a letter or a digit, so what stands behind it is shared
    refine .inl fun near => ?_
    rcases same with shared | stops
    · simpa using shared (near ++ piece.chars.reverse)
    · have other := (stops first (by rw [begins]; rfl)).1
      rw [Piece.isNameChar_of_isAlphanum alphanumeric] at other
      cases other
  · refine .inr fun c member => ⟨Piece.isNameChar_of_edge ends c member, ?_⟩
    rintro rfl
    rw [lookahead member] at notOpening
    cases notOpening

theorem Piece.Starts.head?_behind {text rest : List Char} {piece : Piece}
    (starts : Piece.Starts text piece rest) (place : Place) :
    (piece.chars.foldl Place.step place).behind.head? = piece.chars.getLast? := by
  obtain ⟨first, more, begins, _⟩ := starts.begins
  rw [Place.behind_foldl, List.head?_append, List.head?_reverse, begins, List.getLast?_cons]
  rfl

/-- What a text has resolved to, with other characters behind it, calls the same names and has its
parentheses and quotes matched in the same way. -/
structure Keeps (place : Place) (behind resolved text : List Char) : Prop where
  names : callNamesFrom place.inside behind resolved =
    callNamesFrom place.inside place.behind text
  check (depth : Nat) : Script.check depth place.inside resolved =
    Script.check depth place.inside text

theorem Keeps.cons {place : Place} {behind others rest : List Char} {c : Char}
    (keeps : Keeps (place.step c) (c :: behind) others rest)
    (same : SameNames place.behind behind (c :: rest)) :
    Keeps place behind (c :: others) (c :: rest) := by
  obtain ⟨names, check⟩ := keeps
  simp only [Place.step] at names check
  constructor
  · simp only [callNamesFrom]
    congr 1
    split
    · rename_i opens
      rw [same.nameBehind?_eq opens.1]
    · rfl
  · intro depth
    by_cases isQuote : c = '"'
    · rw [if_pos isQuote] at check
      simp only [Script.check, if_pos isQuote, check]
    · rw [if_neg isQuote] at check
      simp only [Script.check, if_neg isQuote, check]

theorem Keeps.reference {grid : Grid} {settings : Settings} {place : Place}
    {behind literal others text rest : List Char} {piece : Piece} {pieces : List Piece}
    (keeps : Keeps (piece.chars.foldl Place.step place) (literal.reverse ++ behind) others rest)
    (starts : Piece.Starts text piece rest) (nameless : nameBehind? behind = none)
    (read : resolvePiece grid settings place piece pieces = .ok literal) :
    Keeps place behind (literal ++ others) text := by
  have plain : IsPlain piece.chars := fun c member =>
    Piece.isReferenceChar_ne (starts.members c member)
  obtain ⟨names, check⟩ := keeps
  rw [Place.inside_foldl, endsQuoted_plain _ plain, Place.behind_foldl] at names
  rw [Place.inside_foldl, endsQuoted_plain _ plain] at check
  rw [starts.text_eq]
  constructor
  · rw [callNamesFrom_plain _ _ plain, ← names]
    rcases resolvePiece_cases (isFlat_of_plain plain) read with rfl | ⟨outside, _, operand⟩
    · rw [callNamesFrom_plain _ _ plain]
    · rw [outside, operand.callNamesFrom_eq nameless]
  · intro depth
    rw [Script.check_plain _ _ plain, ← check]
    rcases resolvePiece_cases (isFlat_of_plain plain) read with rfl | ⟨outside, _, operand⟩
    · rw [Script.check_plain _ _ plain]
    · rw [outside, operand.check_eq]

theorem resolvePieces_keeps {grid : Grid} {settings : Settings} (previous : Option Char)
    (text : List Char) :
    ∀ (place : Place) (behind resolved : List Char), place.behind.head? = previous →
      resolvePieces grid settings place (Piece.ofCharsAfter previous text) = .ok resolved →
      SameNames place.behind behind text → Keeps place behind resolved text := by
  induction previous, text using Piece.ofCharsAfter_induction with
  | nil previous =>
      intro place behind resolved _ read _
      cases read
      exact ⟨rfl, fun _ => rfl⟩
  | plain previous c rest _ ih =>
      intro place behind resolved _ read same
      obtain ⟨others, restRead, rfl⟩ := resolvePieces_plain_eq_ok_iff.mp read
      exact (ih (place.step c) (c :: behind) others rfl restRead same.cons).cons same
  | reference previous text piece rest edge _ starts ih =>
      intro place behind resolved head read same
      obtain ⟨literal, pieceRead, others, restRead, rfl⟩ := resolvePieces_cons_eq_ok_iff.mp read
      have behindSame := same.reference starts
        (Piece.opensCall_ofCharsAfter piece.chars.getLast? rest).mpr pieceRead
      rw [← Place.behind_foldl] at behindSame
      exact (ih _ _ others (starts.head?_behind place) restRead behindSame).reference starts
        (same.nameless (head.symm ▸ edge) starts) pieceRead

theorem resolve_keeps {grid : Grid} {settings : Settings} {text resolved : List Char}
    (read : resolve grid settings text = .ok resolved) :
    callNames resolved = callNames text ∧
      Script.check 0 false resolved = Script.check 0 false text := by
  obtain ⟨names, check⟩ :=
    resolvePieces_keeps none text {} [] resolved rfl read (.inl fun _ => rfl)
  exact ⟨names, check 0⟩

end Worksheet
