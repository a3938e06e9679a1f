import Mathlib
import Worksheet.Proofs.Reference.Arguments

/-!
# The places that arguments take

A range of numbers stands for the list of its numbers, and for one empty argument if it has none. So
an argument takes one place, and one more for each further number of a range that stands in it
outside literals and parentheses. Cells never take more than one, whatever they hold.
-/

set_option autoImplicit false

namespace Worksheet

variable {grid : Grid} {settings : Settings}

/-- The ranges in the pieces of a text that stand outside literals and parentheses. A word in front
of a parenthesis is the name of a call and no range. -/
def Piece.topRanges (depth : Nat) (inside : Bool) : List Piece → List (List Char)
  | [] => []
  | .plain c :: rest =>
      if c = '"' then topRanges depth (!inside) rest
      else if inside then topRanges depth inside rest
      else if c = '(' then topRanges (depth + 1) inside rest
      else if c = ')' then topRanges (depth - 1) inside rest
      else topRanges depth inside rest
  | .range token :: rest =>
      if depth = 0 ∧ inside = false ∧ opensCall rest = false then token :: topRanges depth inside rest
      else topRanges depth inside rest
  | .cell _ :: rest => topRanges depth inside rest

def rangeSlots (grid : Grid) (token : List Char) : Nat :=
  match Range.read? token with
  | some range => max 1 (range.numbers grid).length
  | none => 1

def Piece.surplus (grid : Grid) (depth : Nat) (inside : Bool) (pieces : List Piece) : Nat :=
  ((topRanges depth inside pieces).map fun token => rangeSlots grid token - 1).sum

/-- How many more arguments than one an argument becomes when its references resolve. -/
def surplus (grid : Grid) (argument : List Char) : Nat :=
  Piece.surplus grid 0 false (Piece.ofChars argument)

theorem Piece.reference?_cases {text : List Char} {piece : Piece}
    (found : reference? text = some piece) :
    (∃ token, piece = .range token) ∨ ∃ token, piece = .cell token := by
  simp only [reference?, Option.orElse_eq_orElse, Option.orElse_eq_or, Option.or_eq_some_iff,
    Option.map_eq_some_iff] at found
  rcases found with ⟨token, _, rfl⟩ | ⟨_, ⟨token, _, rfl⟩ | ⟨_, ⟨token, _, rfl⟩ | ⟨_, token, _, rfl⟩⟩⟩
  · exact .inl ⟨token, rfl⟩
  · exact .inl ⟨token, rfl⟩
  · exact .inl ⟨token, rfl⟩
  · exact .inr ⟨token, rfl⟩

namespace Arguments

theorem length_parts_word (depth : Nat) (inside : Bool) {word : List Char}
    (members : ∀ c ∈ word, Piece.isReferenceChar c = true) (rest : List Char) :
    (parts depth inside (word ++ rest)).length = (parts depth inside rest).length := by
  induction word with
  | nil => rfl
  | cons c word ih =>
      have member := members c List.mem_cons_self
      obtain ⟨notQuote, notOpening, notClosing⟩ := Piece.isReferenceChar_ne member
      have notComma : c ≠ ',' := by
        rintro rfl
        revert member
        decide
      have step : parts depth inside (c :: (word ++ rest)) =
          extendFirst c (parts depth inside (word ++ rest)) := by
        cases inside <;> simp [parts, notQuote, notOpening, notClosing, notComma]
      rw [List.cons_append, step, length_extendFirst c (parts_ne_nil _ _ _),
        ih fun d member => members d (List.mem_cons_of_mem _ member)]

end Arguments

theorem isLiteral_cellLiteral {readsText : Bool} {token literal : List Char}
    (read : cellLiteral grid settings readsText token = .ok literal) : IsLiteral literal := by
  have zero : IsLiteral ['0'] :=
    .number (List.forall_mem_singleton.mpr (by decide)) ⟨'0', List.mem_singleton_self _, by decide⟩
  unfold cellLiteral at read
  split at read
  · rw [eq_of_unresolved read]
    split
    · exact .text []
    · exact zero
  · cases read
    split
    · exact .text _
    · unfold cellOperand
      split
      · rename_i x found
        exact isLiteral_numberLiteral (isFinite_of_cellNumber? found)
      · split
        · split
          · exact zero
          · exact .text _
        · exact zero

theorem length_parts_numbersLiteral {numbers : List Float}
    (finite : ∀ x ∈ numbers, x.isFinite = true) :
    (Arguments.parts 0 false (numbersLiteral numbers)).length = max 1 numbers.length := by
  cases numbers with
  | nil => rfl
  | cons first rest =>
      change (Arguments.parts 0 false ([','].intercalate ((first :: rest).map numberLiteral))).length = _
      induction rest generalizing first with
      | nil =>
          have solid := (isLiteral_numberLiteral (finite first (by simp))).isSolid
          simp [List.intercalate, solid.parts_eq]
      | cons second rest ih =>
          have solid := (isLiteral_numberLiteral (finite first (by simp))).isSolid
          have tail := ih second fun x member => finite x (List.mem_cons_of_mem _ member)
          rw [List.map_cons, List.map_cons, List.intercalate_cons_cons, List.append_assoc,
            List.singleton_append, solid.parts_comma, List.length_cons, ← List.map_cons, tail]
          simp

theorem exists_numbers_of_rangeLiteral {token literal : List Char}
    (read : rangeLiteral grid settings false token = .ok literal) :
    ∃ numbers : List Float, (∀ x ∈ numbers, x.isFinite = true) ∧
      literal = numbersLiteral numbers ∧ rangeSlots grid token = max 1 numbers.length := by
  have none {literal : List Char} (found : unresolved settings token emptyRangeLiteral = .ok literal) :
      literal = numbersLiteral [] := eq_of_unresolved found
  simp only [rangeLiteral, Bool.false_eq_true, if_false] at read
  unfold rangeSlots
  split at read
  · rename_i unread
    rw [unread]
    exact ⟨[], by simp, none read, rfl⟩
  · rename_i range found
    rw [found]
    split at read
    · rename_i refused
      rw [unresolved, if_pos (Bool.and_eq_true_iff.mp refused).1] at read
      cases read
    · cases read
      exact ⟨range.numbers grid, fun _ => isFinite_of_mem_numbers, rfl, rfl⟩

theorem Piece.surplus_of_step {c : Char} {depth depth' : Nat} {inside inside' : Bool}
    (step : Script.CheckStep c depth inside depth' inside') (rest : List Piece) :
    surplus grid depth inside (.plain c :: rest) = surplus grid depth' inside' rest := by
  unfold surplus
  cases step with
  | quote => simp [topRanges]
  | within _ notQuote => simp [topRanges, notQuote]
  | opening => simp [topRanges]
  | closing => simp [topRanges]
  | without _ notQuote notOpening notClosing => simp [topRanges, notQuote, notOpening, notClosing]

theorem Place.textLevels_word (place : Place) {word : List Char} (plain : IsPlain word) :
    (word.foldl Place.step place).textLevels = place.textLevels := by
  induction word generalizing place with
  | nil => rfl
  | cons c word ih =>
      obtain ⟨_, notOpening, notClosing⟩ := plain c List.mem_cons_self
      rw [List.foldl_cons, ih _ fun d member => plain d (List.mem_cons_of_mem _ member)]
      simp [Place.step, notOpening, notClosing]

/-- A reference resolves to a text of as many arguments as it stands for, and to one that belongs to
a single argument if it stands in parentheses. -/
theorem length_parts_literal {depth : Nat} {literal : List Char}
    (checked : Script.check 0 false literal = .ok ()) (rest : List Char) :
    (Arguments.parts depth false (literal ++ rest)).length =
      (Arguments.parts depth false rest).length +
        if depth = 0 then (Arguments.parts 0 false literal).length - 1 else 0 := by
  cases depth with
  | zero =>
      have joined := Arguments.length_joinParts (Arguments.parts_ne_nil 0 false literal)
        (Arguments.parts_ne_nil 0 false rest)
      have own := List.length_pos_iff.mpr (Arguments.parts_ne_nil 0 false literal)
      rw [Arguments.parts_append checked, if_pos rfl]
      omega
  | succ outer =>
      have within := Arguments.parts_within checked outer rest
      rw [Nat.zero_add] at within
      rw [within, Arguments.length_extendText _ (Arguments.parts_ne_nil _ _ _),
        if_neg (Nat.succ_ne_zero outer)]
      rfl

/-- A reference adds as many arguments to a text as it stands for, less the one it is written in.
The open parentheses of the text are nearer than those around it, and around it no text is read. -/
theorem length_parts_reference {place : Place} {depth : Nat} {near far : List Bool}
    (levels : place.textLevels = near ++ far) (length : near.length = depth)
    (numeric : far.headD false = false) {text rest : List Char} {piece : Piece}
    (found : Piece.reference? text = some piece)
    (members : ∀ c ∈ piece.chars, Piece.isReferenceChar c = true)
    {later : List Piece} {literal : List Char}
    (read : resolvePiece grid settings place piece later = .ok literal) :
    (Arguments.parts depth place.inside (literal ++ rest)).length +
        Piece.surplus grid depth place.inside later =
      (Arguments.parts depth place.inside rest).length +
        Piece.surplus grid depth place.inside (piece :: later) := by
  have plain : IsPlain piece.chars := fun c member => Piece.isReferenceChar_ne (members c member)
  by_cases itself : place.inside = true ∨ Piece.opensCall later = true
  · have same : resolvePiece grid settings place piece later = .ok piece.chars := by
      simp [resolvePiece, itself]
    obtain rfl := Except.ok.inj (same.symm.trans read)
    have skipped : Piece.topRanges depth place.inside (piece :: later) =
        Piece.topRanges depth place.inside later := by
      rcases Piece.reference?_cases found with ⟨token, rfl⟩ | ⟨token, rfl⟩
      · rw [Piece.topRanges, if_neg]
        rintro ⟨_, outside, notName⟩
        rw [outside, notName] at itself
        simp at itself
      · rfl
    rw [Arguments.length_parts_word depth place.inside members, Piece.surplus, Piece.surplus, skipped]
  obtain ⟨outside, notName⟩ : place.inside = false ∧ Piece.opensCall later = false := by
    simpa using itself
  rw [outside]
  rcases Piece.reference?_cases found with ⟨token, rfl⟩ | ⟨token, rfl⟩
  · have rangeRead : rangeLiteral grid settings place.readsText token = .ok literal := by
      simpa [resolvePiece, outside, notName] using read
    have checked : Script.check 0 false literal = .ok () := by
      rw [← List.append_nil literal,
        (isOperandText_rangeLiteral (isFlat_of_plain plain) rangeRead).check_eq]
      rfl
    rw [length_parts_literal checked, Piece.surplus, Piece.surplus, Piece.topRanges]
    cases depth with
    | zero =>
        -- no parenthesis of the text is open, so the range is not read as text
        have reads : place.readsText = false := by
          rw [Place.readsText, levels, List.length_eq_zero_iff.mp length, List.nil_append, numeric]
        rw [reads] at rangeRead
        obtain ⟨numbers, finite, rfl, slots⟩ := exists_numbers_of_rangeLiteral rangeRead
        rw [if_pos rfl, if_pos ⟨rfl, rfl, notName⟩, List.map_cons, List.sum_cons, slots,
          length_parts_numbersLiteral finite]
        omega
    | succ outer =>
        rw [if_neg (Nat.succ_ne_zero outer), if_neg (by simp)]
        omega
  · have isLiteral : IsLiteral literal := by
      refine @isLiteral_cellLiteral grid settings place.readsText token literal ?_
      simpa [resolvePiece, outside, notName] using read
    rw [length_parts_literal isLiteral.checked, isLiteral.isSolid.parts_eq, Piece.surplus,
      Piece.surplus, Piece.topRanges]
    simp

/-- Resolving a text adds an argument for each further number of its ranges. -/
theorem length_parts_resolvePieces (previous : Option Char) (text : List Char) :
    ∀ (place : Place) (depth : Nat) (near far : List Bool) (resolved : List Char),
      Script.check depth place.inside text = .ok () → place.textLevels = near ++ far →
      near.length = depth → far.headD false = false →
      resolvePieces grid settings place (Piece.ofCharsAfter previous text) = .ok resolved →
      (Arguments.parts depth place.inside resolved).length =
        (Arguments.parts depth place.inside text).length +
          Piece.surplus grid depth place.inside (Piece.ofCharsAfter previous text) := by
  induction previous, text using Piece.ofCharsAfter_induction with
  | nil previous =>
      intro place depth near far resolved _ _ _ _ read
      cases read
      rfl
  | plain previous c rest _ ih =>
      intro place depth near far resolved checked levels length numeric read
      obtain ⟨others, restRead, rfl⟩ := resolvePieces_plain_eq_ok_iff.mp read
      obtain ⟨depth', inside', step, next⟩ := Script.exists_step_of_check checked
      obtain ⟨near', levels', length'⟩ := Place.exists_near_of_step step levels length
      have inside := (Place.levels_of_step step).1
      have behind := ih (place.step c) depth' near' far others (inside ▸ next) levels' length' numeric
        restRead
      rw [inside] at behind
      rw [Piece.surplus_of_step step]
      -- only a comma outside parentheses begins a part, in the text and in what it resolves to alike
      rcases Arguments.parts_of_step step with extended | ⟨rfl, rfl, outside, rfl, rfl⟩
      · rw [extended, extended, Arguments.length_extendFirst c (Arguments.parts_ne_nil _ _ _),
          Arguments.length_extendFirst c (Arguments.parts_ne_nil _ _ _), behind]
      · rw [outside, Arguments.parts_comma_cons, Arguments.parts_comma_cons, List.length_cons,
          List.length_cons, behind]
        omega
  | reference previous text piece rest _ found starts ih =>
      intro place depth near far resolved checked levels length numeric read
      obtain ⟨literal, pieceRead, others, restRead, rfl⟩ := resolvePieces_cons_eq_ok_iff.mp read
      have plain : IsPlain piece.chars := fun c member =>
        Piece.isReferenceChar_ne (starts.members c member)
      have inside : (piece.chars.foldl Place.step place).inside = place.inside := by
        rw [Place.inside_foldl, endsQuoted_plain _ plain]
      have behind := ih (piece.chars.foldl Place.step place) depth near far others
      rw [inside, place.textLevels_word plain] at behind
      rw [starts.text_eq, Script.check_plain _ _ plain] at checked
      have restCount := behind checked levels length numeric restRead
      have here := @length_parts_reference grid settings place depth near far levels length numeric
        text others piece found starts.members _ literal pieceRead
      rw [starts.text_eq, Arguments.length_parts_word depth place.inside starts.members]
      omega

end Worksheet
