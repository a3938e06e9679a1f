import Mathlib
import Worksheet.Proofs.Tree.Resolution

/-!
# Resolving arguments that are joined

In the arguments of `CONCAT` a cell reads as the literal of its shown form and a literal reads as
itself, whatever it spells. So a list of such arguments resolves argument by argument, and a call of
`CONCAT` among them resolves as it would elsewhere.
-/

set_option autoImplicit false

namespace Worksheet

variable {grid : Grid} {settings : Settings}

/-- What is joined: a text, spelled as a literal, or a cell. -/
inductive Joined where
  | text (content : List Char)
  | cell (word : CellWord)

namespace Joined

def spelled : Joined → List Char
  | text content => quote content
  | cell word => word.token

def shown (grid : Grid) : Joined → List Char
  | text content => content
  | cell word =>
      match (Cell.read? word.token).bind grid.get? with
      | some value => value.shown
      | none => []

end Joined

theorem isNameChar_of_mem_textFunction {c : Char} (member : c ∈ textFunction) :
    isNameChar c = true :=
  List.all_eq_true.mp (by decide : textFunction.all isNameChar = true) c member

theorem isPlain_textFunction : IsPlain textFunction :=
  fun _ member => isNameChar_ne (isNameChar_of_mem_textFunction member)

def joinCall (arguments : List (List Char)) : List Char :=
  textFunction ++ '(' :: ([','].intercalate arguments ++ [')'])

/-- A place outside literals in arguments that are read as text; `levels` tells the same of the
parentheses further out. -/
structure Place.IsTextual (levels : List Bool) (place : Place) : Prop where
  outside : place.inside = false
  levels_eq : place.textLevels = true :: levels

/-- A text resolves to a literal at every place that reads text, if an operand may begin there and
end in front of the rest, and the place behind it reads text too. -/
def ResolvesAsText (grid : Grid) (settings : Settings) (text literal : List Char) : Prop :=
  ∀ (levels : List Bool) (place : Place) (rest : List Char), place.IsTextual levels →
    wordEdge place.behind.head? = true → EndsOperand rest →
    ∃ after : Place, after.IsTextual levels ∧ Resolves grid settings rest place text literal after

theorem Place.IsTextual.foldl {levels : List Bool} {place : Place} (textual : place.IsTextual levels)
    {text : List Char} (checked : Script.check 0 false text = .ok ()) :
    (text.foldl Place.step place).IsTextual levels where
  outside := by
    rw [Place.inside_foldl, textual.outside]
    exact Script.endsQuoted_of_check checked
  levels_eq :=
    @Place.textLevels_foldl 0 text place (textual.outside.symm ▸ checked) [] _ textual.levels_eq rfl

theorem check_quote (content : List Char) : Script.check 0 false (quote content) = .ok () := by
  have flat := @Script.check_flat 0 false _ (isFlat_quoted content) []
  rwa [List.append_nil] at flat

theorem check_token (word : CellWord) : Script.check 0 false word.token = .ok () :=
  Script.check_of_plain word.isPlain_token

theorem resolvesAsText_nil : ResolvesAsText grid settings [] [] :=
  fun _ place rest textual _ _ => ⟨place, textual, resolves_nil rest place⟩

theorem resolvesAsText_quote (content : List Char) :
    ResolvesAsText grid settings (quote content) (quote content) :=
  fun _ _ rest textual _ _ =>
    ⟨_, textual.foldl (check_quote content), resolves_quote content rest textual.outside⟩

theorem resolvesAsText_cell (lenient : settings.strictReferences = false) (word : CellWord) :
    ResolvesAsText grid settings word.token (quote ((Joined.cell word).shown grid)) := by
  intro levels place rest textual edge ends
  refine ⟨_, textual.foldl (check_token word), ?_⟩
  have readsText : place.readsText = true := by rw [Place.readsText, textual.levels_eq]; rfl
  refine @resolves_reference grid settings (.cell word.token) rest _ place edge
    (word.reference?_token ends) ends.notOpening fun others closed => ?_
  simp only [resolvePiece, textual.outside, closed, Bool.or_self, Bool.false_eq_true, if_false,
    readsText, cellLiteral, Joined.shown]
  cases (Cell.read? word.token).bind grid.get? with
  | none => simp [unresolved, lenient]
  | some value => simp

theorem Joined.resolvesAsText (lenient : settings.strictReferences = false) (item : Joined) :
    ResolvesAsText grid settings item.spelled (quote (item.shown grid)) := by
  cases item with
  | text content => exact resolvesAsText_quote content
  | cell word => exact resolvesAsText_cell lenient word

theorem resolvesAsText_intercalate {arguments literals : List (List Char)}
    (each : List.Forall₂ (ResolvesAsText grid settings) arguments literals) :
    ResolvesAsText grid settings ([','].intercalate arguments) ([','].intercalate literals) := by
  induction each with
  | nil => exact resolvesAsText_nil
  | @cons first literal others literals firstResolves othersResolve ih =>
      cases othersResolve with
      | nil => simpa [List.intercalate] using firstResolves
      | @cons second literal' others literals' secondResolves othersResolve =>
          intro levels place rest textual edge ends
          rw [List.intercalate_cons_cons, List.intercalate_cons_cons]
          simp only [List.append_assoc, List.singleton_append] at ih ⊢
          have behind := endsOperand_cons (by simp [treeSymbols] : ',' ∈ treeSymbols) (by decide)
            ([','].intercalate (second :: others) ++ rest)
          obtain ⟨middle, middleTextual, firstRead⟩ :=
            firstResolves levels place _ textual edge behind
          have comma := @resolves_symbol grid settings middle
            ([','].intercalate (second :: others) ++ rest) ',' (by simp [treeSymbols])
          have commaTextual : (middle.step ',').IsTextual levels :=
            @Place.IsTextual.foldl levels middle middleTextual [','] rfl
          obtain ⟨after, afterTextual, othersRead⟩ :=
            ih levels _ rest commaTextual comma.2 ends
          exact ⟨after, afterTextual, firstRead.append (comma.1.append othersRead)⟩

/-- A call of `CONCAT` resolves to the call on the literals of its arguments, wherever a name may
begin, and it leaves the open parentheses as they were. -/
theorem resolves_joinCall {arguments literals : List (List Char)}
    (each : List.Forall₂ (ResolvesAsText grid settings) arguments literals) {place : Place}
    (outside : place.inside = false) (edge : wordEdge place.behind.head? = true)
    (rest : List Char) :
    ∃ after : Place, after.inside = false ∧ after.textLevels = place.textLevels ∧
      Resolves grid settings rest place (joinCall arguments) (joinCall literals) after := by
  have stops : StopsName place.behind := Piece.isNameChar_of_edge edge
  have name := @resolves_callName grid settings textFunction
    ([','].intercalate arguments ++ [')'] ++ rest) (fun _ => isNameChar_of_mem_textFunction) place
  have opening := @resolves_symbol grid settings (textFunction.foldl Place.step place)
    ([','].intercalate arguments ++ [')'] ++ rest) '(' (by simp [treeSymbols])
  have opens : (textFunction.foldl Place.step place).opensText = true := by
    rw [Place.opensText, Place.behind_foldl, nameBehind?_append_of_stops _ stops]
    rfl
  have nameOutside : (textFunction.foldl Place.step place).inside = false := by
    rw [Place.inside_foldl, outside, endsQuoted_plain _ isPlain_textFunction]
  have nameLevels : (textFunction.foldl Place.step place).textLevels = place.textLevels :=
    @Place.textLevels_foldl 0 textFunction place
      (outside.symm ▸ Script.check_of_plain isPlain_textFunction) [] _ rfl rfl
  have textual : ((textFunction.foldl Place.step place).step '(').IsTextual place.textLevels :=
    ⟨by simp [Place.step, nameOutside], by simp [Place.step, nameOutside, opens, nameLevels]⟩
  have behind := endsOperand_cons (by simp [treeSymbols] : ')' ∈ treeSymbols) (by decide) rest
  obtain ⟨middle, middleTextual, argumentsRead⟩ :=
    resolvesAsText_intercalate each _ _ _ textual opening.2 behind
  have closing := @resolves_symbol grid settings middle rest ')' (by simp [treeSymbols])
  refine ⟨middle.step ')', ?_, ?_, name.append (opening.1.append (argumentsRead.append closing.1))⟩
  · simp [Place.step, middleTextual.outside]
  · simp [Place.step, middleTextual.outside, middleTextual.levels_eq]

theorem resolvesAsText_joinCall {arguments literals : List (List Char)}
    (each : List.Forall₂ (ResolvesAsText grid settings) arguments literals) :
    ResolvesAsText grid settings (joinCall arguments) (joinCall literals) := by
  intro levels place rest textual edge _
  obtain ⟨after, outside, levels_eq, read⟩ := resolves_joinCall each textual.outside edge rest
  exact ⟨after, ⟨outside, levels_eq.trans textual.levels_eq⟩, read⟩

theorem resolve_joinCall {arguments literals : List (List Char)}
    (each : List.Forall₂ (ResolvesAsText grid settings) arguments literals) :
    resolve grid settings (joinCall arguments) = .ok (joinCall literals) := by
  obtain ⟨after, _, _, read⟩ := @resolves_joinCall _ _ _ _ each {} rfl rfl []
  exact read.resolve_eq

end Worksheet
