import Mathlib
import Worksheet.Reference.Piece

/-!
# References among the pieces of a text

A reference begins with a letter or a digit, holds only letters, digits, blanks and colons, and
ends where a word may end. `ofCharsAfter_induction` goes through the pieces of a text on these
terms, without the shapes of references.
-/

set_option autoImplicit false

namespace Worksheet.Piece

def isReferenceChar (c : Char) : Bool :=
  c.isAlphanum || c == ':' || isBlank c

structure Takes (text taken rest : List Char) : Prop where
  text_eq : text = taken ++ rest
  begins : ∃ first more, taken = first :: more ∧ first.isAlphanum = true
  members : ∀ c ∈ taken, isReferenceChar c = true

theorem Takes.append {text taken rest : List Char} (takes : Takes text taken rest)
    {more last : List Char} (rest_eq : rest = more ++ last)
    (members : ∀ c ∈ more, isReferenceChar c = true) : Takes text (taken ++ more) last := by
  obtain ⟨text_eq, ⟨first, others, begins, alphanumeric⟩, takenMembers⟩ := takes
  refine ⟨by rw [text_eq, rest_eq, List.append_assoc],
    ⟨first, others ++ more, by rw [begins, List.cons_append], alphanumeric⟩, ?_⟩
  intro c member
  rcases List.mem_append.mp member with member | member
  · exact takenMembers c member
  · exact members c member

theorem run?_eq_some {member : Char → Bool} {text taken rest : List Char}
    (found : run? member text = some (taken, rest)) :
    taken = text.takeWhile member ∧ rest = text.dropWhile member ∧ taken ≠ [] := by
  unfold run? at found
  split at found
  · cases found
  · rename_i nonempty
    obtain ⟨rfl, rfl⟩ := Prod.mk.inj (Option.some.inj found)
    exact ⟨rfl, rfl, nonempty⟩

theorem takes_run? {member : Char → Bool} (alphanumeric : ∀ c, member c = true → c.isAlphanum = true)
    {text taken rest : List Char} (found : run? member text = some (taken, rest)) :
    Takes text taken rest := by
  obtain ⟨rfl, rfl, nonempty⟩ := run?_eq_some found
  have members : ∀ c ∈ text.takeWhile member, c.isAlphanum = true :=
    fun c inside => alphanumeric c (List.mem_takeWhile_imp inside)
  obtain ⟨first, more, begins⟩ := List.exists_cons_of_ne_nil nonempty
  refine ⟨List.takeWhile_append_dropWhile.symm, ⟨first, more, begins, ?_⟩, ?_⟩
  · exact members first (begins ▸ List.mem_cons_self)
  · intro c inside
    simp [isReferenceChar, members c inside]

theorem isAlphanum_of_isAlpha (c : Char) (alpha : c.isAlpha = true) : c.isAlphanum = true := by
  simp [Char.isAlphanum, alpha]

theorem isAlphanum_of_isDigit (c : Char) (digit : c.isDigit = true) : c.isAlphanum = true := by
  simp [Char.isAlphanum, digit]

theorem cellShape?_eq_some {text taken rest : List Char}
    (found : cellShape? text = some (taken, rest)) :
    ∃ letters behind digits, run? Char.isAlpha text = some (letters, behind) ∧
      run? Char.isDigit behind = some (digits, rest) ∧ taken = letters ++ digits := by
  obtain ⟨⟨letters, behind⟩, lettersFound, found⟩ := Option.bind_eq_some_iff.mp found
  obtain ⟨⟨digits, last⟩, digitsFound, found⟩ := Option.bind_eq_some_iff.mp found
  obtain ⟨rfl, rfl⟩ := Prod.mk.inj (Option.some.inj found)
  exact ⟨letters, behind, digits, lettersFound, digitsFound, rfl⟩

theorem takes_cellShape? {text taken rest : List Char}
    (found : cellShape? text = some (taken, rest)) : Takes text taken rest := by
  obtain ⟨letters, behind, digits, lettersFound, digitsFound, rfl⟩ := cellShape?_eq_some found
  have second := takes_run? isAlphanum_of_isDigit digitsFound
  exact (takes_run? isAlphanum_of_isAlpha lettersFound).append second.text_eq second.members

theorem spacedColon?_eq_some {text taken rest : List Char}
    (found : spacedColon? text = some (taken, rest)) :
    text = taken ++ rest ∧ ∀ c ∈ taken, isReferenceChar c = true := by
  have blanks (list : List Char) : ∀ c ∈ list.takeWhile isBlank, isReferenceChar c = true := by
    intro c inside
    simp [isReferenceChar, List.mem_takeWhile_imp inside]
  unfold spacedColon? at found
  split at found
  · rename_i behind colon
    obtain ⟨rfl, rfl⟩ := Prod.mk.inj (Option.some.inj found)
    constructor
    · conv_lhs => rw [← List.takeWhile_append_dropWhile (p := isBlank) (l := text), colon,
        ← List.takeWhile_append_dropWhile (p := isBlank) (l := behind)]
      simp
    · intro c inside
      rcases List.mem_append.mp inside with inside | inside
      · exact blanks text c inside
      · rcases List.mem_cons.mp inside with rfl | inside
        · decide
        · exact blanks behind c inside
  · cases found

theorem cornersShape?_eq_some {text taken rest : List Char}
    (found : cornersShape? text = some (taken, rest)) :
    ∃ first behind colon second last, cellShape? text = some (first, behind) ∧
      spacedColon? behind = some (colon, second) ∧ cellShape? second = some (last, rest) ∧
        taken = first ++ colon ++ last := by
  obtain ⟨⟨first, behind⟩, firstFound, found⟩ := Option.bind_eq_some_iff.mp found
  obtain ⟨⟨colon, second⟩, colonFound, found⟩ := Option.bind_eq_some_iff.mp found
  obtain ⟨⟨last, ending⟩, lastFound, found⟩ := Option.bind_eq_some_iff.mp found
  obtain ⟨rfl, rfl⟩ := Prod.mk.inj (Option.some.inj found)
  exact ⟨first, behind, colon, second, last, firstFound, colonFound, lastFound, rfl⟩

theorem takes_cornersShape? {text taken rest : List Char}
    (found : cornersShape? text = some (taken, rest)) : Takes text taken rest := by
  obtain ⟨first, behind, colon, second, last, firstFound, colonFound, lastFound, rfl⟩ :=
    cornersShape?_eq_some found
  obtain ⟨colonEq, colonMembers⟩ := spacedColon?_eq_some colonFound
  have lastTakes := takes_cellShape? lastFound
  exact ((takes_cellShape? firstFound).append colonEq colonMembers).append lastTakes.text_eq
    lastTakes.members

theorem pairShape?_eq_some {member : Char → Bool} {text taken rest : List Char}
    (found : pairShape? member text = some (taken, rest)) :
    ∃ first behind last, run? member text = some (first, ':' :: behind) ∧
      run? member behind = some (last, rest) ∧ taken = first ++ ':' :: last := by
  obtain ⟨⟨first, behind⟩, firstFound, found⟩ := Option.bind_eq_some_iff.mp found
  simp only [] at found
  split at found
  · obtain ⟨⟨last, ending⟩, lastFound, found⟩ := Option.bind_eq_some_iff.mp found
    obtain ⟨rfl, rfl⟩ := Prod.mk.inj (Option.some.inj found)
    exact ⟨first, _, last, firstFound, lastFound, rfl⟩
  · cases found

theorem takes_pairShape? {member : Char → Bool}
    (alphanumeric : ∀ c, member c = true → c.isAlphanum = true) {text taken rest : List Char}
    (found : pairShape? member text = some (taken, rest)) : Takes text taken rest := by
  obtain ⟨first, behind, last, firstFound, lastFound, rfl⟩ := pairShape?_eq_some found
  have lastTakes := takes_run? alphanumeric lastFound
  refine (takes_run? alphanumeric firstFound).append ?_
    (List.forall_mem_cons.mpr ⟨by decide, lastTakes.members⟩)
  rw [lastTakes.text_eq]
  rfl

/-- A reference at the start of a text, with the rest of the text behind it. -/
structure Starts (text : List Char) (piece : Piece) (rest : List Char) : Prop extends
    Takes text piece.chars rest where
  ends : wordEdge rest.head? = true

theorem starts_of_word? {text taken : List Char} {shape : Option (List Char × List Char)}
    (takes : ∀ rest, shape = some (taken, rest) → Takes text taken rest)
    (found : word? shape = some taken) :
    ∃ rest, Takes text taken rest ∧ wordEdge rest.head? = true := by
  obtain ⟨⟨first, rest⟩, same, found⟩ := Option.bind_eq_some_iff.mp found
  simp only [] at found
  split at found
  · rename_i edge
    obtain rfl := Option.some.inj found
    exact ⟨rest, takes rest same, edge⟩
  · cases found

theorem starts_of_reference? {text : List Char} {piece : Piece}
    (found : reference? text = some piece) : ∃ rest, Starts text piece rest := by
  have wrap {shape : Option (List Char × List Char)} {make : List Char → Piece}
      (chars : ∀ token, (make token).chars = token)
      (takes : ∀ taken rest, shape = some (taken, rest) → Takes text taken rest)
      (found : (word? shape).map make = some piece) : ∃ rest, Starts text piece rest := by
    obtain ⟨taken, word, rfl⟩ := Option.map_eq_some_iff.mp found
    obtain ⟨rest, takes, ends⟩ := starts_of_word? (takes taken) word
    exact ⟨rest, (chars taken).symm ▸ takes, ends⟩
  simp only [reference?, Option.orElse_eq_orElse, Option.orElse_eq_or, Option.or_eq_some_iff]
    at found
  rcases found with found | ⟨_, found | ⟨_, found | ⟨_, found⟩⟩⟩
  · exact wrap (fun _ => rfl) (fun _ _ => takes_cornersShape?) found
  · exact wrap (fun _ => rfl) (fun _ _ => takes_pairShape? isAlphanum_of_isAlpha) found
  · exact wrap (fun _ => rfl) (fun _ _ => takes_pairShape? isAlphanum_of_isDigit) found
  · exact wrap (fun _ => rfl) (fun _ _ => takes_cellShape?) found

theorem ofCharsAfter_nil (previous : Option Char) : ofCharsAfter previous [] = [] := by
  rw [ofCharsAfter]

theorem ofCharsAfter_of_starts {previous : Option Char} (edge : wordEdge previous = true)
    {text rest : List Char} {piece : Piece} (found : reference? text = some piece)
    (starts : Starts text piece rest) :
    ofCharsAfter previous text = piece :: ofCharsAfter piece.chars.getLast? rest := by
  obtain ⟨⟨text_eq, ⟨first, more, begins, _⟩, _⟩, _⟩ := starts
  have cons : text = first :: (more ++ rest) := by rw [text_eq, begins, List.cons_append]
  subst cons
  rw [ofCharsAfter, if_pos edge, found]
  simp only [begins, List.length_cons, Nat.add_sub_cancel, List.drop_left]

theorem ofCharsAfter_of_none {previous : Option Char} {c : Char} {rest : List Char}
    (none : wordEdge previous = true → reference? (c :: rest) = none) :
    ofCharsAfter previous (c :: rest) = plain c :: ofCharsAfter (some c) rest := by
  rw [ofCharsAfter]
  by_cases edge : wordEdge previous = true
  · rw [if_pos edge, none edge]
  · rw [if_neg edge]

/-- Goes through the pieces of a text from the left: each is a reference or a single character. -/
theorem ofCharsAfter_induction {motive : Option Char → List Char → List Piece → Prop}
    (nil : ∀ previous, motive previous [] [])
    (reference : ∀ previous text piece rest, wordEdge previous = true →
      reference? text = some piece → Starts text piece rest →
      motive piece.chars.getLast? rest (ofCharsAfter piece.chars.getLast? rest) →
      motive previous text (piece :: ofCharsAfter piece.chars.getLast? rest))
    (plain : ∀ previous c rest, (wordEdge previous = true → reference? (c :: rest) = none) →
      motive (some c) rest (ofCharsAfter (some c) rest) →
      motive previous (c :: rest) (plain c :: ofCharsAfter (some c) rest))
    (previous : Option Char) (text : List Char) :
    motive previous text (ofCharsAfter previous text) := by
  induction measured : text.length using Nat.strong_induction_on generalizing previous text with
  | h size ih =>
      cases text with
      | nil =>
          rw [ofCharsAfter_nil]
          exact nil previous
      | cons c rest =>
          by_cases here : wordEdge previous = true ∧ (reference? (c :: rest)).isSome = true
          · obtain ⟨edge, some⟩ := here
            obtain ⟨piece, found⟩ := Option.isSome_iff_exists.mp some
            obtain ⟨behind, starts⟩ := starts_of_reference? found
            rw [ofCharsAfter_of_starts edge found starts]
            have shorter : behind.length < size := by
              obtain ⟨first, more, begins, _⟩ := starts.begins
              have lengths := congrArg List.length starts.text_eq
              rw [begins, measured] at lengths
              simp only [List.length_append, List.length_cons] at lengths
              omega
            exact reference previous _ piece behind edge found starts (ih _ shorter _ _ rfl)
          · have none : wordEdge previous = true → reference? (c :: rest) = Option.none := by
              intro edge
              simpa [edge] using here
            rw [ofCharsAfter_of_none none]
            have shorter : rest.length < size := by
              rw [← measured]
              exact Nat.lt_succ_self _
            exact plain previous c rest none (ih _ shorter _ _ rfl)

theorem reference?_eq_none {c : Char} (other : c.isAlphanum = false) (rest : List Char) :
    reference? (c :: rest) = none := by
  cases found : reference? (c :: rest) with
  | none => rfl
  | some piece =>
      exfalso
      obtain ⟨behind, ⟨text_eq, ⟨first, more, begins, alphanumeric⟩, _⟩, _⟩ :=
        starts_of_reference? found
      rw [begins, List.cons_append] at text_eq
      rw [← (List.cons.inj text_eq).1, other] at alphanumeric
      cases alphanumeric

theorem flatMap_chars_ofCharsAfter (previous : Option Char) (text : List Char) :
    (ofCharsAfter previous text).flatMap chars = text := by
  induction previous, text using ofCharsAfter_induction with
  | nil previous => rfl
  | reference previous text piece rest _ _ starts ih =>
      rw [List.flatMap_cons, ih, ← starts.text_eq]
  | plain previous c rest _ ih => rw [List.flatMap_cons, ih]; rfl

end Worksheet.Piece
