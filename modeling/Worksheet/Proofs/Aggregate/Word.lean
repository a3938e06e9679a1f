import Mathlib
import Worksheet.Proofs.Aggregate.Argument

/-!
# Arguments in any spelling

The cells and ranges among the arguments of an aggregate may be spelled in any way that the pattern
of references describes: in either case, with blanks around the colon, with the corners in any
order, or with an index that is too great to be one. A list of such arguments resolves to one text
wherever it stands, and that text spells numbers.
-/

set_option autoImplicit false

namespace Worksheet

theorem Piece.reference?_of_mem_range {token : List Char} (described : token ∈ Pattern.range)
    {rest : List Char} (ends : wordEdge rest.head? = true) :
    reference? (token ++ rest) = some (.range token) := by
  have found : Matches none (token ++ rest) (.range token) rest :=
    .range rfl ⟨rfl, described, ends⟩
  exact (matches_iff.mp found).2.1

theorem Pattern.mem_range_iff {token : List Char} :
    token ∈ Pattern.range ↔ Piece.reference? token = some (.range token) := by
  constructor
  · intro described
    have found := @Piece.reference?_of_mem_range token described [] rfl
    rwa [List.append_nil] at found
  · intro found
    have whole : Matches none token (.range token) [] :=
      Piece.matches_iff.mpr ⟨rfl, found, (List.append_nil token).symm⟩
    cases whole with
    | range _ begins => exact begins.described

theorem Pattern.isPlain_of_mem_range {token : List Char} (described : token ∈ Pattern.range) :
    IsPlain token := by
  obtain ⟨rest, starts⟩ := Piece.starts_of_reference? (Pattern.mem_range_iff.mp described)
  exact fun c member => Piece.isReferenceChar_ne (starts.members c member)

theorem spellsNumbers_of_range {grid : Grid} {settings : Settings}
    (lenient : settings.strictReferences = false) (token : List Char) :
    ∃ literal numbers, rangeLiteral grid settings false token = .ok literal ∧
      SpellsNumbers literal numbers := by
  cases read : Range.read? token with
  | none =>
      refine ⟨emptyRangeLiteral, [], ?_, .single contributes_empty⟩
      simp [rangeLiteral, read, unresolved, lenient]
  | some range =>
      refine ⟨numbersLiteral (range.numbers grid), _, ?_,
        spellsNumbers_numbersLiteral fun _ => isFinite_of_mem_numbers⟩
      simp [rangeLiteral, read, lenient]

/-- An argument of an aggregate as it is written: a finite number without a sign, a cell, or a
range in any of its spellings. -/
inductive ArgumentWord where
  | number (literal : UnsignedLiteral) (finite : (literal.decimal.toFloat false).isFinite = true)
  | cell (word : CellWord)
  | range (token : List Char) (described : token ∈ Pattern.range)

namespace ArgumentWord

def text : ArgumentWord → List Char
  | number literal _ => literal.digits
  | cell word => word.token
  | range token _ => token

def textAll (words : List ArgumentWord) : List Char :=
  [','].intercalate (words.map text)

theorem textAll_singleton (word : ArgumentWord) : textAll [word] = word.text := by
  simp [textAll]

theorem textAll_cons_cons (first second : ArgumentWord) (others : List ArgumentWord) :
    textAll (first :: second :: others) = first.text ++ ',' :: textAll (second :: others) := by
  simp [textAll, List.intercalate_cons_cons]

theorem isPlain_text (word : ArgumentWord) : IsPlain word.text := by
  cases word with
  | number literal finite => exact literal.isPlain_digits
  | cell word => exact word.isPlain_token
  | range token described => exact Pattern.isPlain_of_mem_range described

theorem isPlain_textAll (words : List ArgumentWord) : IsPlain (textAll words) :=
  isPlain_intercalate (List.forall_mem_map.mpr fun word _ => word.isPlain_text)

variable {grid : Grid} {settings : Settings}

theorem resolves_text (lenient : settings.strictReferences = false) (word : ArgumentWord) :
    ∃ literal numbers, SpellsNumbers literal numbers ∧
      ResolvesAsNumbers grid settings word.text literal := by
  cases word with
  | number literal finite =>
      exact ⟨literal.digits, _, .single (contributes_digits finite),
        resolvesAsNumbers_digits literal⟩
  | cell word =>
      obtain ⟨literal, read, contributes⟩ :=
        @Argument.contributes_cellLiteral grid settings lenient word.token
      exact ⟨literal, _, .single contributes, resolvesAsNumbers_cell read⟩
  | range token described =>
      obtain ⟨literal, numbers, read, spells⟩ := @spellsNumbers_of_range grid settings lenient token
      exact ⟨literal, numbers, spells,
        resolvesAsNumbers_range (Pattern.isPlain_of_mem_range described)
          (fun rest ends => Piece.reference?_of_mem_range described ends.edge) read⟩

theorem resolves_textAll (lenient : settings.strictReferences = false) {words : List ArgumentWord}
    (nonempty : words ≠ []) :
    ∃ literal numbers, SpellsNumbers literal numbers ∧
      ResolvesAsNumbers grid settings (textAll words) literal := by
  induction words with
  | nil => exact absurd rfl nonempty
  | cons first others ih =>
      obtain ⟨literal, numbers, spells, resolves⟩ :=
        @resolves_text grid settings lenient first
      cases others with
      | nil =>
          rw [textAll_singleton]
          exact ⟨literal, numbers, spells, resolves⟩
      | cons second others =>
          obtain ⟨literals, numbers', spells', resolves'⟩ := ih (by simp)
          rw [textAll_cons_cons]
          exact ⟨literal ++ ',' :: literals, numbers ++ numbers', spells.append spells',
            resolves.comma resolves'⟩

end ArgumentWord

end Worksheet
