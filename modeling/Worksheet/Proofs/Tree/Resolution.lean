import Mathlib
import Worksheet.Proofs.Reference.Part
import Worksheet.Proofs.Tree.Collapse

/-!
# Resolving the text of a tree

The text of a tree whose cells read as numbers resolves to the text with the literals of these
numbers. Signs, operators, parentheses and names stay as they are, and no place in the text reads
text, because no call in it is one of `CONCAT`.
-/

set_option autoImplicit false

namespace Worksheet

def treeSymbols : List Char :=
  ['+', '-', '*', '/', '(', ')', ',']

def isTreeChar (c : Char) : Bool :=
  c.isAlphanum || c == '.' || treeSymbols.contains c

theorem isTreeChar_visible {c : Char} (member : isTreeChar c = true) : isBlank c = false := by
  have bounds : 40 ≤ c.toNat ∧ c.toNat ≤ 122 := by
    simp only [isTreeChar, Bool.or_eq_true, Char.isAlphanum, Char.isAlpha, Char.isUpper,
      Char.isLower, Char.isDigit, Bool.and_eq_true, decide_eq_true_eq, UInt32.le_iff_toNat_le,
      ge_iff_le, List.contains_iff_mem, beq_iff_eq] at member
    rcases member with (member | rfl) | member
    · change (65 ≤ c.toNat ∧ c.toNat ≤ 90 ∨ 97 ≤ c.toNat ∧ c.toNat ≤ 122) ∨
        48 ≤ c.toNat ∧ c.toNat ≤ 57 at member
      omega
    · decide
    · have symbols : treeSymbols.all (fun c => 40 ≤ c.toNat ∧ c.toNat ≤ 122) = true := rfl
      simpa using List.all_eq_true.mp symbols c member
  simp only [isBlank, Bool.or_eq_false_iff, Bool.and_eq_false_iff, decide_eq_false_iff_not,
    beq_eq_false_iff_ne, ne_eq]
  omega

theorem isTreeChar_of_isAlphanum {c : Char} (alphanumeric : c.isAlphanum = true) :
    isTreeChar c = true := by
  simp [isTreeChar, alphanumeric]

theorem isTreeChar_of_isNumberChar {c : Char} (numeric : Token.isNumberChar c = true) :
    isTreeChar c = true := by
  simp only [Token.isNumberChar, Bool.or_eq_true, beq_iff_eq] at numeric
  rcases numeric with digit | rfl
  · exact isTreeChar_of_isAlphanum (by simp [Char.isAlphanum, digit])
  · decide

namespace CellWord

theorem isAlphanum_of_mem_token {word : CellWord} {c : Char} (member : c ∈ word.token) :
    c.isAlphanum = true := by
  rcases List.mem_append.mp member with member | member
  · exact Piece.isAlphanum_of_isAlpha c (List.all_eq_true.mp word.allLetters c member)
  · exact Piece.isAlphanum_of_isDigit c (List.all_eq_true.mp word.allDigits c member)

theorem token_ne_nil (word : CellWord) : word.token ≠ [] := by
  simp [token, word.letters_ne_nil]

end CellWord

theorem NumericFunction.isAlpha_of_mem_name {function : NumericFunction} {c : Char}
    (member : c ∈ function.name) : c.isAlpha = true := by
  have letters : function.name.all Char.isAlpha = true := by cases function <;> rfl
  exact List.all_eq_true.mp letters c member

theorem NumericFunction.name_ne_textFunction (function : NumericFunction) :
    function.name ≠ textFunction := by
  cases function <;> decide

namespace Tree

/-- The text of a tree holds nothing but letters, digits and the symbols of arithmetic. -/
theorem isTreeChar_of_mem_spelled {tree : Tree} {c : Char}
    (member : c ∈ tree.spelled CellWord.token) : isTreeChar c = true := by
  induction tree using Tree.induction with
  | number literal =>
      exact isTreeChar_of_isNumberChar (List.all_eq_true.mp literal.numeric c member)
  | cell word => exact isTreeChar_of_isAlphanum (CellWord.isAlphanum_of_mem_token member)
  | sign negative operand ih =>
      rcases List.mem_cons.mp member with rfl | member
      · cases negative <;> decide
      · exact ih member
  | group inner ih =>
      simp only [spelled, List.mem_cons, List.mem_append, List.not_mem_nil, or_false] at member
      rcases member with rfl | member | rfl
      · decide
      · exact ih member
      · decide
  | binary operator left right ihLeft ihRight =>
      simp only [spelled, List.mem_append, List.mem_cons] at member
      rcases member with member | rfl | member
      · exact ihLeft member
      · cases operator <;> decide
      · exact ihRight member
  | call function arguments ih =>
      have all (inside : c ∈ spelledAll CellWord.token arguments) : isTreeChar c = true := by
        clear member
        induction arguments with
        | nil => cases inside
        | cons first others ihAll =>
            cases others with
            | nil => exact ih first List.mem_cons_self inside
            | cons second others =>
                rw [spelledAll_cons_cons, List.mem_append, List.mem_cons] at inside
                rcases inside with inside | rfl | inside
                · exact ih first List.mem_cons_self inside
                · decide
                · exact ihAll (fun tree deeper => ih tree (List.mem_cons_of_mem _ deeper)) inside
      simp only [spelled, List.mem_append, List.mem_cons, List.not_mem_nil, or_false] at member
      rcases member with member | rfl | member | rfl
      · exact isTreeChar_of_isAlphanum
          (Piece.isAlphanum_of_isAlpha c (NumericFunction.isAlpha_of_mem_name member))
      · decide
      · exact all member
      · decide

end Tree

/-! ## Places that read numbers -/

/-- A place outside literals that reads no text, and neither does a place around it. -/
structure Place.IsNumeric (place : Place) : Prop where
  outside : place.inside = false
  levels : ∀ level ∈ place.textLevels, level = false

theorem Place.IsNumeric.readsText_eq {place : Place} (numeric : place.IsNumeric) :
    place.readsText = false := by
  unfold Place.readsText
  cases levels : place.textLevels with
  | nil => rfl
  | cons level rest => exact numeric.levels level (by simp [levels])

theorem Place.IsNumeric.step {place : Place} (numeric : place.IsNumeric) {c : Char}
    (notQuote : c ≠ '"') (opens : c = '(' → place.opensText = false) :
    (place.step c).IsNumeric := by
  constructor
  · simp [Place.step, notQuote, numeric.outside]
  · intro level member
    simp only [Place.step, numeric.outside, Bool.false_eq_true, if_false] at member
    split at member
    · rename_i opening
      rcases List.mem_cons.mp member with rfl | member
      · exact opens opening
      · exact numeric.levels level member
    · split at member
      · exact numeric.levels level (List.mem_of_mem_tail member)
      · exact numeric.levels level member

theorem Place.IsNumeric.foldl {place : Place} (numeric : place.IsNumeric) {text : List Char}
    (plain : IsPlain text) :
    (text.foldl Place.step place).IsNumeric := by
  induction text generalizing place with
  | nil => exact numeric
  | cons c rest ih =>
      obtain ⟨notQuote, notOpening, _⟩ := plain c List.mem_cons_self
      exact ih (numeric.step notQuote fun opening => absurd opening notOpening)
        fun d member => plain d (List.mem_cons_of_mem _ member)

theorem Place.IsNumeric.opensText_of_edge {place : Place} (numeric : place.IsNumeric)
    (edge : wordEdge place.behind.head? = true) : place.opensText = false := by
  have stops : StopsName place.behind := Piece.isNameChar_of_edge edge
  rw [Place.opensText, stops.nameBehind?_eq]
  exact numeric.readsText_eq

theorem Place.opensText_of_name {place : Place} {function : NumericFunction}
    (edge : wordEdge place.behind.head? = true) :
    (function.name.foldl Place.step place).opensText = false := by
  have stops : StopsName place.behind := Piece.isNameChar_of_edge edge
  rw [Place.opensText, Place.behind_foldl, nameBehind?_append_of_stops _ stops,
    function.nameBehind?_name]
  simp [function.capitals_name, function.name_ne_textFunction]

variable {grid : Grid} {settings : Settings}

theorem cellLiteral_eq (lenient : settings.strictReferences = false) {word : CellWord}
    (numeric : grid.NumericAt word) :
    cellLiteral grid settings false word.token = .ok (Tree.cellLiteralText grid word) := by
  have zero : numberLiteral 0.0 = ['0'] := by decide +kernel
  unfold cellLiteral Tree.cellLiteralText Tree.cellNumber
  unfold Grid.NumericAt at numeric
  cases found : (Cell.read? word.token).bind grid.get? with
  | none => simp [unresolved, lenient, zero]
  | some value =>
      have reads := numeric value found
      cases number : value.cellNumber? with
      | some x => simp [cellOperand, number]
      | none =>
          cases value with
          | number x => simp [cellOperand, number, zero]
          | text content =>
              have blank : (Value.text content).isBlankText = true := by
                simpa [Value.readsAsNumber, number] using reads
              simp [cellOperand, number, zero, blank]

theorem endsOperand_cons {c : Char} (symbol : c ∈ treeSymbols) (notOpening : c ≠ '(')
    (rest : List Char) : EndsOperand (c :: rest) := by
  have symbols : treeSymbols.all
      (fun c => wordEdge (some c) = true ∧ isBlank c = false ∧ c ≠ ':') = true := rfl
  obtain ⟨edge, visible, notColon⟩ := of_decide_eq_true (List.all_eq_true.mp symbols c symbol)
  refine ⟨edge, fun d member => ?_⟩
  obtain rfl := Option.some.inj member
  exact ⟨visible, notColon, notOpening⟩

theorem CellWord.reference?_token {rest : List Char} (ends : EndsOperand rest) (word : CellWord) :
    Piece.reference? (word.token ++ rest) = some (.cell word.token) := by
  rw [token, List.append_assoc]
  exact Piece.reference?_of_word ends word.letters_ne_nil word.digits_ne_nil
    (List.all_eq_true.mp word.allLetters) (List.all_eq_true.mp word.allDigits)

theorem UnsignedLiteral.isPlain_digits (literal : UnsignedLiteral) : IsPlain literal.digits :=
  fun c member => isNumberChar_ne (List.all_eq_true.mp literal.numeric c member)

theorem CellWord.isPlain_token (word : CellWord) : IsPlain word.token :=
  fun _ member => isNameChar_ne (Piece.isNameChar_of_isAlphanum (isAlphanum_of_mem_token member))

theorem NumericFunction.isPlain_name (function : NumericFunction) : IsPlain function.name :=
  fun c member => isNameChar_ne (Piece.isNameChar_of_isAlphanum
    (Piece.isAlphanum_of_isAlpha c (function.isAlpha_of_mem_name member)))

section Parts

variable {place : Place} {rest : List Char}

theorem resolves_symbol {c : Char} (symbol : c ∈ treeSymbols) :
    Resolves grid settings rest place [c] [c] (place.step c) ∧
      wordEdge (place.step c).behind.head? = true := by
  have symbols : treeSymbols.all
      (fun c => c.isAlphanum = false ∧ wordEdge (some c) = true) = true := rfl
  obtain ⟨other, edge⟩ := of_decide_eq_true (List.all_eq_true.mp symbols c symbol)
  exact ⟨resolves_char place (Piece.reference?_eq_none other rest), edge⟩

theorem resolves_digits {literal : UnsignedLiteral} (ends : EndsOperand rest) :
    Resolves grid settings rest place literal.digits literal.digits
      (literal.digits.foldl Place.step place) :=
  resolves_number (List.all_eq_true.mp literal.numeric) ends.notDigit ends.notColon place

theorem resolves_name {function : NumericFunction} :
    Resolves grid settings ('(' :: rest) place function.name function.name
      (function.name.foldl Place.step place) :=
  resolves_callName (fun c member => Piece.isNameChar_of_isAlphanum
    (Piece.isAlphanum_of_isAlpha c (function.isAlpha_of_mem_name member))) place

end Parts

/-! ## Texts where numbers are read -/

/-- Where numbers are read, the text resolves to the literal wherever an operand may begin in front
of it and end behind it, and numbers are read behind it too. -/
def ResolvesAsNumbers (grid : Grid) (settings : Settings) (text literal : List Char) : Prop :=
  ∀ (place : Place) (rest : List Char), place.IsNumeric → wordEdge place.behind.head? = true →
    EndsOperand rest →
      ∃ after : Place, after.IsNumeric ∧ Resolves grid settings rest place text literal after

theorem resolvesAsNumbers_nil : ResolvesAsNumbers grid settings [] [] :=
  fun place rest numeric _ _ => ⟨place, numeric, resolves_nil rest place⟩

theorem resolvesAsNumbers_digits (literal : UnsignedLiteral) :
    ResolvesAsNumbers grid settings literal.digits literal.digits := by
  intro place rest numeric _ ends
  exact ⟨_, numeric.foldl literal.isPlain_digits, resolves_digits ends⟩

theorem resolvesAsNumbers_reference {piece : Piece} {literal : List Char}
    (plain : IsPlain piece.chars)
    (found : ∀ rest, EndsOperand rest → Piece.reference? (piece.chars ++ rest) = some piece)
    (read : ∀ (place : Place) (others : List Piece), place.IsNumeric →
      Piece.opensCall others = false → resolvePiece grid settings place piece others = .ok literal) :
    ResolvesAsNumbers grid settings piece.chars literal := by
  intro place rest numeric edge ends
  exact ⟨_, numeric.foldl plain, resolves_reference edge (found rest ends) ends.notOpening
    fun others closed => read place others numeric closed⟩

theorem resolvesAsNumbers_cell {word : CellWord} {literal : List Char}
    (read : cellLiteral grid settings false word.token = .ok literal) :
    ResolvesAsNumbers grid settings word.token literal := by
  refine @resolvesAsNumbers_reference grid settings (.cell word.token) literal word.isPlain_token
    (fun rest ends => word.reference?_token ends) fun place others numeric closed => ?_
  simp only [resolvePiece, numeric.outside, closed, Bool.or_self, Bool.false_eq_true, if_false,
    numeric.readsText_eq]
  exact read

theorem resolvesAsNumbers_range {token literal : List Char} (plain : IsPlain token)
    (found : ∀ rest, EndsOperand rest → Piece.reference? (token ++ rest) = some (.range token))
    (read : rangeLiteral grid settings false token = .ok literal) :
    ResolvesAsNumbers grid settings token literal := by
  refine @resolvesAsNumbers_reference grid settings (.range token) literal plain found
    fun place others numeric closed => ?_
  simp only [resolvePiece, numeric.outside, closed, Bool.or_self, Bool.false_eq_true, if_false,
    numeric.readsText_eq]
  exact read

namespace ResolvesAsNumbers

variable {text literal first second literal' : List Char}

theorem around {c : Char} (symbol : c ∈ treeSymbols) (notOpening : c ≠ '(')
    (left : ResolvesAsNumbers grid settings first literal)
    (right : ResolvesAsNumbers grid settings second literal') :
    ResolvesAsNumbers grid settings (first ++ c :: second) (literal ++ c :: literal') := by
  intro place rest numeric edge ends
  have notQuote : c ≠ '"' := by
    rintro rfl
    simp [treeSymbols] at symbol
  obtain ⟨middle, middleNumeric, firstResolves⟩ :=
    left place (c :: (second ++ rest)) numeric edge (endsOperand_cons symbol notOpening _)
  have between := @resolves_symbol grid settings middle (second ++ rest) c symbol
  obtain ⟨after, afterNumeric, secondResolves⟩ :=
    right (middle.step c) rest (middleNumeric.step notQuote fun opening => absurd opening notOpening)
      between.2 ends
  exact ⟨after, afterNumeric, firstResolves.append (between.1.append secondResolves)⟩

theorem comma (left : ResolvesAsNumbers grid settings first literal)
    (right : ResolvesAsNumbers grid settings second literal') :
    ResolvesAsNumbers grid settings (first ++ ',' :: second) (literal ++ ',' :: literal') :=
  left.around (by simp [treeSymbols]) (by decide) right

theorem signed (resolves : ResolvesAsNumbers grid settings text literal) (negative : Bool) :
    ResolvesAsNumbers grid settings (signSymbol negative :: text) (signSymbol negative :: literal) :=
  resolvesAsNumbers_nil.around (by cases negative <;> simp [signSymbol, treeSymbols])
    (by cases negative <;> decide) resolves

theorem operator (left : ResolvesAsNumbers grid settings first literal)
    (right : ResolvesAsNumbers grid settings second literal') (operator : Arithmetic) :
    ResolvesAsNumbers grid settings (first ++ operator.symbol :: second)
      (literal ++ operator.symbol :: literal') :=
  left.around (by cases operator <;> simp [Arithmetic.symbol, treeSymbols])
    (by cases operator <;> decide) right

theorem within_parentheses (resolves : ResolvesAsNumbers grid settings text literal)
    {place : Place} (numeric : place.IsNumeric) (opens : place.opensText = false)
    (rest : List Char) :
    ∃ after : Place, after.IsNumeric ∧ Resolves grid settings rest place
      ('(' :: (text ++ [')'])) ('(' :: (literal ++ [')'])) after := by
  have opening := @resolves_symbol grid settings place (text ++ [')'] ++ rest) '('
    (by simp [treeSymbols])
  have openingNumeric := numeric.step (by decide : '(' ≠ '"') fun _ => opens
  have behind := endsOperand_cons (by simp [treeSymbols] : ')' ∈ treeSymbols) (by decide) rest
  obtain ⟨middle, middleNumeric, inner⟩ := resolves _ _ openingNumeric opening.2 behind
  have closing := @resolves_symbol grid settings middle rest ')' (by simp [treeSymbols])
  exact ⟨middle.step ')', middleNumeric.step (by decide) (by simp),
    opening.1.append (inner.append closing.1)⟩

theorem parentheses (resolves : ResolvesAsNumbers grid settings text literal) :
    ResolvesAsNumbers grid settings ('(' :: (text ++ [')'])) ('(' :: (literal ++ [')'])) :=
  fun _ rest numeric edge _ =>
    resolves.within_parentheses numeric (numeric.opensText_of_edge edge) rest

theorem call (resolves : ResolvesAsNumbers grid settings text literal) (function : NumericFunction) :
    ResolvesAsNumbers grid settings (function.name ++ '(' :: (text ++ [')']))
      (function.name ++ '(' :: (literal ++ [')'])) := by
  intro place rest numeric edge _
  have name := @resolves_name grid settings place (text ++ [')'] ++ rest) function
  obtain ⟨after, afterNumeric, parentheses⟩ := resolves.within_parentheses
    (numeric.foldl function.isPlain_name) (Place.opensText_of_name edge) rest
  exact ⟨after, afterNumeric, name.append parentheses⟩

theorem resolve_eq (resolves : ResolvesAsNumbers grid settings text literal) :
    resolve grid settings text = .ok literal := by
  obtain ⟨after, _, whole⟩ := resolves {} [] ⟨rfl, by simp⟩ rfl ⟨rfl, by simp⟩
  exact whole.resolve_eq

end ResolvesAsNumbers

namespace Tree

/-- The text of arguments resolves to the text with the literals of their cells when that of each
argument does. -/
theorem resolves_spelledAll_of {arguments : List Tree}
    (each : ∀ argument ∈ arguments, ResolvesAsNumbers grid settings
      (argument.spelled CellWord.token) (argument.spelled (cellLiteralText grid))) :
    ResolvesAsNumbers grid settings (spelledAll CellWord.token arguments)
      (spelledAll (cellLiteralText grid) arguments) := by
  induction arguments with
  | nil => exact resolvesAsNumbers_nil
  | cons first others ih =>
      cases others with
      | nil => exact each first List.mem_cons_self
      | cons second others =>
          rw [spelledAll_cons_cons, spelledAll_cons_cons]
          exact (each first List.mem_cons_self).comma
            (ih fun argument member => each argument (List.mem_cons_of_mem _ member))

theorem resolves_spelled (lenient : settings.strictReferences = false) (tree : Tree)
    (reads : ∀ word, cell word ∈ tree.subtrees → grid.NumericAt word) :
    ResolvesAsNumbers grid settings (tree.spelled CellWord.token)
      (tree.spelled (cellLiteralText grid)) := by
  induction tree using Tree.induction with
  | number literal => exact resolvesAsNumbers_digits literal
  | cell word =>
      exact resolvesAsNumbers_cell (cellLiteral_eq lenient (reads word (by simp [subtrees])))
  | sign negative operand ih =>
      exact (ih fun word member => reads word (by simp [subtrees, member])).signed negative
  | group inner ih =>
      exact (ih fun word member => reads word (by simp [subtrees, member])).parentheses
  | binary operator left right ihLeft ihRight =>
      exact (ihLeft fun word member => reads word (by simp [subtrees, member])).operator
        (ihRight fun word member => reads word (by simp [subtrees, member])) operator
  | call function arguments ih =>
      refine ResolvesAsNumbers.call (resolves_spelledAll_of fun argument inside => ?_) function
      exact ih argument inside fun word member =>
        reads word (subtrees_subset_of_mem (mem_subtrees_call inside) member)

theorem resolve_spelled (lenient : settings.strictReferences = false) (tree : Tree)
    (reads : ∀ word, cell word ∈ tree.subtrees → grid.NumericAt word) :
    resolve grid settings (tree.spelled CellWord.token) =
      .ok (tree.spelled (cellLiteralText grid)) :=
  (resolves_spelled lenient tree reads).resolve_eq

end Tree

end Worksheet
