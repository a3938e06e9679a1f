import Mathlib
import Worksheet.Proofs.Reference.Word

/-!
# The pattern of references

What a reference looks like, apart from how it is found. A cell is letters with digits behind them.
A range is two cells with a colon between them and blanks around the colon, or two runs of letters
or of digits with a colon directly between them. Each is a word of its own.

The shapes that find references take exactly what the pattern describes, and a range is preferred to
the cell that it begins with.
-/

set_option autoImplicit false

namespace Worksheet

namespace Pattern

def several (member : Char → Bool) : Language Char :=
  {text | text ≠ [] ∧ ∀ c ∈ text, member c = true}

def blanks : Language Char :=
  {text | ∀ c ∈ text, isBlank c = true}

def colon : Language Char :=
  {[':']}

def cell : Language Char :=
  several Char.isAlpha * several Char.isDigit

def corners : Language Char :=
  cell * (blanks * colon * blanks) * cell

def pair (member : Char → Bool) : Language Char :=
  several member * colon * several member

def range : Language Char :=
  corners + pair Char.isAlpha + pair Char.isDigit

structure Begins (pattern : Language Char) (text token rest : List Char) : Prop where
  text_eq : text = token ++ rest
  described : token ∈ pattern
  ends : wordEdge rest.head? = true

theorem mem_cell_iff {token : List Char} :
    token ∈ cell ↔ ∃ letters ∈ several Char.isAlpha, ∃ digits ∈ several Char.isDigit,
      token = letters ++ digits := by
  simp only [cell, Language.mem_mul, eq_comm]

theorem mem_spacedColon_iff {token : List Char} :
    token ∈ blanks * colon * blanks ↔ ∃ before ∈ blanks, ∃ after ∈ blanks,
      token = before ++ ':' :: after := by
  simp only [colon, Language.mem_mul]
  constructor
  · rintro ⟨_, ⟨before, beforeBlank, _, rfl, rfl⟩, after, afterBlank, rfl⟩
    exact ⟨before, beforeBlank, after, afterBlank, by simp⟩
  · rintro ⟨before, beforeBlank, after, afterBlank, rfl⟩
    exact ⟨before ++ [':'], ⟨before, beforeBlank, [':'], rfl, rfl⟩, after, afterBlank, by simp⟩

theorem mem_corners_iff {token : List Char} :
    token ∈ corners ↔ ∃ first ∈ cell, ∃ middle ∈ blanks * colon * blanks, ∃ last ∈ cell,
      token = first ++ middle ++ last := by
  rw [corners, Language.mem_mul]
  simp only [Language.mem_mul (l := cell)]
  constructor
  · rintro ⟨_, ⟨first, firstCell, middle, isMiddle, rfl⟩, last, lastCell, rfl⟩
    exact ⟨first, firstCell, middle, isMiddle, last, lastCell, rfl⟩
  · rintro ⟨first, firstCell, middle, isMiddle, last, lastCell, rfl⟩
    exact ⟨_, ⟨first, firstCell, middle, isMiddle, rfl⟩, last, lastCell, rfl⟩

theorem mem_pair_iff {member : Char → Bool} {token : List Char} :
    token ∈ pair member ↔ ∃ first ∈ several member, ∃ last ∈ several member,
      token = first ++ ':' :: last := by
  simp only [pair, colon, Language.mem_mul]
  constructor
  · rintro ⟨_, ⟨first, firstRun, _, rfl, rfl⟩, last, lastRun, rfl⟩
    exact ⟨first, firstRun, last, lastRun, by simp⟩
  · rintro ⟨first, firstRun, last, lastRun, rfl⟩
    exact ⟨first ++ [':'], ⟨first, firstRun, [':'], rfl, rfl⟩, last, lastRun, by simp⟩

end Pattern

open Pattern

namespace Piece

/-! ## What the shapes take, and matches -/

/-- A shape takes from a text what the pattern describes, and whenever a word that the pattern
describes stands there, it takes that. -/
structure Finds (shape : List Char → Option (List Char × List Char)) (pattern : Language Char) :
    Prop where
  sound : ∀ {text token rest}, shape text = some (token, rest) →
    text = token ++ rest ∧ token ∈ pattern
  complete : ∀ {token rest}, token ∈ pattern → wordEdge rest.head? = true →
    shape (token ++ rest) = some (token, rest)

theorem Finds.word?_eq_some_iff {shape : List Char → Option (List Char × List Char)}
    {pattern : Language Char} (finds : Finds shape pattern) {text token : List Char} :
    word? (shape text) = some token ↔ ∃ rest, Begins pattern text token rest := by
  constructor
  · intro found
    obtain ⟨⟨taken, rest⟩, same, found⟩ := Option.bind_eq_some_iff.mp found
    obtain ⟨text_eq, described⟩ := finds.sound same
    simp only [] at found
    split at found
    · rename_i edge
      obtain rfl := Option.some.inj found
      exact ⟨rest, text_eq, described, edge⟩
    · cases found
  · rintro ⟨rest, rfl, described, ends⟩
    rw [word?, finds.complete described ends, Option.bind_eq_bind, Option.bind_some]
    simp only [if_pos ends]

theorem sound_run? {member : Char → Bool} {text taken rest : List Char}
    (found : run? member text = some (taken, rest)) :
    text = taken ++ rest ∧ taken ∈ several member := by
  obtain ⟨rfl, rfl, nonempty⟩ := run?_eq_some found
  refine ⟨List.takeWhile_append_dropWhile.symm, nonempty, ?_⟩
  intro c inside
  exact List.mem_takeWhile_imp inside

theorem sound_cellShape? {text token rest : List Char}
    (found : cellShape? text = some (token, rest)) : text = token ++ rest ∧ token ∈ Pattern.cell := by
  obtain ⟨letters, behind, digits, lettersFound, digitsFound, rfl⟩ := cellShape?_eq_some found
  obtain ⟨rfl, isLetters⟩ := sound_run? lettersFound
  obtain ⟨rfl, isDigits⟩ := sound_run? digitsFound
  exact ⟨(List.append_assoc _ _ _).symm, mem_cell_iff.mpr ⟨letters, isLetters, digits, isDigits, rfl⟩⟩

theorem cellShape?_of_mem {token rest : List Char} (described : token ∈ Pattern.cell)
    (noDigit : ∀ c ∈ rest.head?, c.isDigit = false) :
    cellShape? (token ++ rest) = some (token, rest) := by
  obtain ⟨letters, ⟨someLetters, allLetters⟩, digits, ⟨someDigits, allDigits⟩, rfl⟩ :=
    mem_cell_iff.mp described
  rw [List.append_assoc]
  exact cellShape?_append someLetters someDigits allLetters allDigits noDigit

theorem finds_cell : Finds cellShape? Pattern.cell where
  sound := sound_cellShape?
  complete described ends := cellShape?_of_mem described (isDigit_of_edge ends)

theorem sound_spacedColon? {text taken rest : List Char}
    (found : spacedColon? text = some (taken, rest)) :
    text = taken ++ rest ∧ taken ∈ blanks * colon * blanks := by
  refine ⟨(spacedColon?_eq_some found).1, ?_⟩
  unfold spacedColon? at found
  split at found
  · obtain ⟨rfl, _⟩ := Prod.mk.inj (Option.some.inj found)
    exact mem_spacedColon_iff.mpr ⟨_, fun c inside => List.mem_takeWhile_imp inside, _,
      fun c inside => List.mem_takeWhile_imp inside, rfl⟩
  · cases found

theorem spacedColon?_of_mem {token rest : List Char} (described : token ∈ blanks * colon * blanks)
    (visible : ∀ c ∈ rest.head?, isBlank c = false) :
    spacedColon? (token ++ rest) = some (token, rest) := by
  obtain ⟨before, beforeBlank, after, afterBlank, rfl⟩ := mem_spacedColon_iff.mp described
  obtain ⟨taken, dropped⟩ := @takeWhile_run isBlank before (':' :: (after ++ rest)) beforeBlank
    (by rintro c ⟨⟩; decide)
  obtain ⟨taken', dropped'⟩ := takeWhile_run afterBlank visible
  rw [List.append_assoc, List.cons_append]
  simp only [spacedColon?, taken, dropped, taken', dropped']

theorem notDigit_of_spacedColon {middle rest : List Char}
    (described : middle ∈ blanks * colon * blanks) :
    ∀ c ∈ (middle ++ rest).head?, c.isDigit = false := by
  obtain ⟨before, beforeBlank, after, _, rfl⟩ := mem_spacedColon_iff.mp described
  intro c first
  cases before with
  | nil =>
      obtain rfl := Option.some.inj first
      decide
  | cons d more =>
      obtain rfl := Option.some.inj first
      by_contra digit
      have visible := isBlank_of_isNameChar
        (isNameChar_of_isAlphanum (isAlphanum_of_isDigit d (by simpa using digit)))
      rw [beforeBlank d List.mem_cons_self] at visible
      cases visible

theorem visible_of_cell {token : List Char} (described : token ∈ Pattern.cell) (rest : List Char) :
    ∀ c ∈ (token ++ rest).head?, isBlank c = false := by
  obtain ⟨letters, ⟨someLetters, allLetters⟩, digits, _, rfl⟩ := mem_cell_iff.mp described
  obtain ⟨first, more, rfl⟩ := List.exists_cons_of_ne_nil someLetters
  intro c begins
  obtain rfl := Option.some.inj begins
  exact isBlank_of_isNameChar
    (isNameChar_of_isAlphanum (isAlphanum_of_isAlpha first (allLetters first List.mem_cons_self)))

theorem finds_corners : Finds cornersShape? corners where
  sound found := by
    obtain ⟨first, behind, middle, second, last, firstFound, middleFound, lastFound, rfl⟩ :=
      cornersShape?_eq_some found
    obtain ⟨rfl, firstCell⟩ := sound_cellShape? firstFound
    obtain ⟨rfl, isMiddle⟩ := sound_spacedColon? middleFound
    obtain ⟨rfl, lastCell⟩ := sound_cellShape? lastFound
    exact ⟨by simp, mem_corners_iff.mpr ⟨first, firstCell, middle, isMiddle, last, lastCell, rfl⟩⟩
  complete described ends := by
    obtain ⟨first, firstCell, middle, isMiddle, last, lastCell, rfl⟩ := mem_corners_iff.mp described
    rw [List.append_assoc, List.append_assoc, cornersShape?,
      cellShape?_of_mem firstCell (notDigit_of_spacedColon isMiddle), Option.bind_eq_bind,
      Option.bind_some]
    simp only [spacedColon?_of_mem isMiddle (visible_of_cell lastCell _), Option.bind_some,
      cellShape?_of_mem lastCell (isDigit_of_edge ends)]
    rfl

theorem pairShape?_append {member : Char → Bool} {left right rest : List Char}
    (leftNonempty : left ≠ []) (rightNonempty : right ≠ [])
    (leftMembers : ∀ c ∈ left, member c = true) (rightMembers : ∀ c ∈ right, member c = true)
    (colon : member ':' = false) (other : ∀ c ∈ rest.head?, member c = false) :
    pairShape? member (left ++ ':' :: (right ++ rest)) = some (left ++ ':' :: right, rest) := by
  have leftRun := @run?_append member left (':' :: (right ++ rest)) leftNonempty leftMembers
    (by simp [colon])
  rw [pairShape?, leftRun, Option.bind_eq_bind, Option.bind_some]
  simp only [run?_append rightNonempty rightMembers other, Option.bind_some]
  rfl

theorem finds_pair {member : Char → Bool} (colon : member ':' = false)
    (alphanumeric : ∀ c, member c = true → c.isAlphanum = true) :
    Finds (pairShape? member) (pair member) where
  sound found := by
    obtain ⟨first, behind, last, firstFound, lastFound, rfl⟩ := pairShape?_eq_some found
    obtain ⟨rfl, firstRun⟩ := sound_run? firstFound
    obtain ⟨same, lastRun⟩ := sound_run? lastFound
    exact ⟨by simp [same], mem_pair_iff.mpr ⟨first, firstRun, last, lastRun, rfl⟩⟩
  complete described ends := by
    obtain ⟨first, ⟨someFirst, allFirst⟩, last, ⟨someLast, allLast⟩, rfl⟩ :=
      mem_pair_iff.mp described
    rw [List.append_assoc, List.cons_append]
    refine pairShape?_append someFirst someLast allFirst allLast colon ?_
    intro c first
    by_contra inside
    have isAlphanum := alphanumeric c (by simpa using inside)
    rw [other_of_edge ends c first] at isAlphanum
    cases isAlphanum

theorem finds_columns : Finds (pairShape? Char.isAlpha) (pair Char.isAlpha) :=
  finds_pair (by decide) isAlphanum_of_isAlpha

theorem finds_rows : Finds (pairShape? Char.isDigit) (pair Char.isDigit) :=
  finds_pair (by decide) isAlphanum_of_isDigit

theorem noCell_of_columns {token : List Char} (described : token ∈ pair Char.isAlpha)
    (rest : List Char) : cellShape? (token ++ rest) = none := by
  obtain ⟨first, ⟨someFirst, allFirst⟩, last, _, rfl⟩ := mem_pair_iff.mp described
  have lettersRun := @run?_append Char.isAlpha first (':' :: (last ++ rest)) someFirst allFirst
    (by simp)
  rw [List.append_assoc, List.cons_append, cellShape?, lettersRun, Option.bind_eq_bind,
    Option.bind_some]
  have noDigits := @run?_eq_none Char.isDigit (':' :: (last ++ rest)) (by simp)
  simp only [noDigits, Option.bind_none]

theorem noLetter_of_rows {token : List Char} (described : token ∈ pair Char.isDigit)
    (rest : List Char) : ∀ c ∈ (token ++ rest).head?, c.isAlpha = false := by
  obtain ⟨first, ⟨someFirst, allFirst⟩, last, _, rfl⟩ := mem_pair_iff.mp described
  rw [List.append_assoc]
  exact isAlpha_head_of_digits allFirst someFirst _

theorem range_found_iff {text token : List Char} :
    (word? (cornersShape? text) <|> word? (pairShape? Char.isAlpha text) <|>
        word? (pairShape? Char.isDigit text)) = some token ↔
      ∃ rest, Begins Pattern.range text token rest := by
  have weaken {pattern : Language Char} (part : ∀ token ∈ pattern, token ∈ Pattern.range)
      (found : ∃ rest, Begins pattern text token rest) :
      ∃ rest, Begins Pattern.range text token rest := by
    obtain ⟨rest, text_eq, described, ends⟩ := found
    exact ⟨rest, text_eq, part token described, ends⟩
  simp only [Option.orElse_eq_orElse, Option.orElse_eq_or, Option.or_eq_some_iff]
  constructor
  · rintro (found | ⟨_, found | ⟨_, found⟩⟩)
    · exact weaken (fun _ inside => .inl (.inl inside)) (finds_corners.word?_eq_some_iff.mp found)
    · exact weaken (fun _ inside => .inl (.inr inside)) (finds_columns.word?_eq_some_iff.mp found)
    · exact weaken (fun _ inside => .inr inside) (finds_rows.word?_eq_some_iff.mp found)
  · rintro ⟨rest, rfl, (inside | inside) | inside, ends⟩
    · exact .inl (finds_corners.word?_eq_some_iff.mpr ⟨rest, rfl, inside, ends⟩)
    · have noCorners := cornersShape?_of_no_cell (noCell_of_columns inside rest)
      rw [noCorners]
      exact .inr ⟨rfl, .inl (finds_columns.word?_eq_some_iff.mpr ⟨rest, rfl, inside, ends⟩)⟩
    · have noLetter := noLetter_of_rows inside rest
      rw [cornersShape?_of_no_cell (cellShape?_of_no_letter noLetter),
        pairShape?_of_no_member noLetter]
      exact .inr ⟨rfl, .inr ⟨rfl, finds_rows.word?_eq_some_iff.mpr ⟨rest, rfl, inside, ends⟩⟩⟩

end Piece

/-- The pattern of references matches at the start of a text with the character `previous` in front
of it: a word that is a range, or else one that is a cell. -/
inductive Matches (previous : Option Char) (text : List Char) : Piece → List Char → Prop
  | range {token rest : List Char} (edge : wordEdge previous = true)
      (found : Begins Pattern.range text token rest) : Matches previous text (.range token) rest
  | cell {token rest : List Char} (edge : wordEdge previous = true)
      (found : Begins Pattern.cell text token rest)
      (noRange : ∀ token rest, ¬ Begins Pattern.range text token rest) :
      Matches previous text (.cell token) rest

namespace Piece

theorem reference?_eq_or (text : List Char) :
    reference? text =
      ((word? (cornersShape? text) <|> word? (pairShape? Char.isAlpha text) <|>
          word? (pairShape? Char.isDigit text)).map range).or
        ((word? (cellShape? text)).map cell) := by
  rw [reference?]
  cases word? (cornersShape? text) <;> cases word? (pairShape? Char.isAlpha text) <;>
    cases word? (pairShape? Char.isDigit text) <;> cases word? (cellShape? text) <;> rfl

/-- A match of the pattern is the reference that is found, and what is behind it. -/
theorem matches_iff {previous : Option Char} {text rest : List Char} {piece : Piece} :
    Matches previous text piece rest ↔
      wordEdge previous = true ∧ reference? text = some piece ∧ text = piece.chars ++ rest := by
  rw [reference?_eq_or, Option.or_eq_some_iff]
  constructor
  · rintro (⟨edge, found⟩ | ⟨edge, found, noRange⟩)
    · refine ⟨edge, .inl ?_, found.text_eq⟩
      rw [range_found_iff.mpr ⟨_, found⟩]
      rfl
    · refine ⟨edge, .inr ⟨?_, ?_⟩, found.text_eq⟩
      · rw [Option.map_eq_none_iff, Option.eq_none_iff_forall_ne_some]
        intro token some
        obtain ⟨rest, found⟩ := range_found_iff.mp some
        exact noRange token rest found
      · rw [finds_cell.word?_eq_some_iff.mpr ⟨_, found⟩]
        rfl
  · rintro ⟨edge, found | ⟨none, found⟩, text_eq⟩
    · obtain ⟨token, taken, rfl⟩ := Option.map_eq_some_iff.mp found
      obtain ⟨rest', begins⟩ := range_found_iff.mp taken
      obtain rfl : rest' = rest := List.append_cancel_left (begins.text_eq.symm.trans text_eq)
      exact .range edge begins
    · obtain ⟨token, taken, rfl⟩ := Option.map_eq_some_iff.mp found
      obtain ⟨rest', begins⟩ := finds_cell.word?_eq_some_iff.mp taken
      obtain rfl : rest' = rest := List.append_cancel_left (begins.text_eq.symm.trans text_eq)
      refine .cell edge begins ?_
      intro token rest inRange
      rw [Option.map_eq_none_iff, range_found_iff.mpr ⟨rest, inRange⟩] at none
      cases none

end Piece

end Worksheet
