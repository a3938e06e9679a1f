import Mathlib
import Worksheet.Proofs.Formula.Naming
import Worksheet.Proofs.Joining.Resolution

/-!
# Joining texts

`CONCAT` joins exactly: a formula that joins texts and cells has as its value the texts and the shown
forms of the cells, one behind the other. Nothing that a text spells matters on the way, neither
quotes nor commas, parentheses, blanks, references or names. Joining some of the arguments first
changes nothing.
-/

set_option autoImplicit false

namespace Worksheet

theorem intercalate_around (first : List (List Char)) (text : List Char) (last : List (List Char)) :
    [','].intercalate (first ++ text :: last) =
      first.flatMap (· ++ [',']) ++ (text ++ last.flatMap (',' :: ·)) := by
  induction first generalizing text with
  | nil =>
      induction last generalizing text with
      | nil => simp [List.intercalate]
      | cons next last ih =>
          have tail : [','].intercalate (next :: last) = next ++ last.flatMap (',' :: ·) := ih next
          rw [List.nil_append, List.intercalate_cons_cons, tail]
          simp
  | cons head first ih =>
      obtain ⟨next, others, same⟩ : ∃ next others, first ++ text :: last = next :: others := by
        cases first <;> exact ⟨_, _, rfl⟩
      rw [List.cons_append, same, List.intercalate_cons_cons, ← same, ih]
      simp

theorem split_quotes (contents : List (List Char)) :
    Arguments.split ([','].intercalate (contents.map quote)) = contents.map quote := by
  cases contents with
  | nil => rfl
  | cons first others =>
      have parts : Arguments.parts 0 false ([','].intercalate ((first :: others).map quote)) =
          (first :: others).map quote := by
        induction others generalizing first with
        | nil =>
            simpa [List.intercalate] using (Arguments.isSolid_quote first).parts_eq
        | cons second others ih =>
            rw [List.map_cons, List.map_cons, List.intercalate_cons_cons, List.append_assoc,
              List.singleton_append, (Arguments.isSolid_quote first).parts_comma, ← List.map_cons,
              ih]
      have visible : (trim ([','].intercalate ((first :: others).map quote))).isEmpty = false := by
        have nonempty : trim ([','].intercalate ((first :: others).map quote)) ≠ [] := by
          have around := intercalate_around [] (quote first) (others.map quote)
          rw [List.nil_append, ← List.map_cons, List.flatMap_nil, List.nil_append] at around
          rw [around, trim, dropWhile_isBlank (by simp [quote]; decide), trimEnd]
          simp only [ne_eq, List.reverse_eq_nil_iff, List.dropWhile_eq_nil_iff, List.mem_reverse]
          intro blank
          have isBlank := blank '"' (by simp [quote])
          revert isBlank
          decide
        simpa using nonempty
      rw [Arguments.split, visible, parts]
      simp [trim_quote]

theorem joinedPart_quote (content : List Char) : Library.joinedPart (quote content) = content := by
  simp only [Library.joinedPart, trim_quote, unquote?_quote]

theorem concat_quotes (contents : List (List Char)) :
    Library.concat (contents.map quote) = .text contents.flatten := by
  simp [Library.concat, List.flatMap_map, joinedPart_quote, List.flatMap_id']

theorem Registry.call_textFunction (settings : Settings) (arguments : List (List Char)) :
    Registry.standard.call settings textFunction arguments = .ok (Library.concat arguments) := by
  have canonical : capitals textFunction = textFunction := rfl
  have admitted : Arity.any.admits arguments.length = true := by simp [Arity.admits, Arity.any]
  have found : Registry.standard.get? textFunction =
      some ⟨"CONCAT".toList, .any, .lazy fun arguments _ _ => .ok (Library.concat arguments),
        "Join arguments as text"⟩ := rfl
  rw [Registry.call, canonical]
  simp only [found, admitted, if_true, Body.apply, Outcome.ok_bind]
  rfl

def literalsBefore (contents : List (List Char)) : List Char :=
  (contents.map quote).flatMap (· ++ [','])

def literalsBehind (contents : List (List Char)) : List Char :=
  (contents.map quote).flatMap (',' :: ·)

theorem isFlat_literalsBefore (contents : List (List Char)) :
    isFlat false (literalsBefore contents) = true := by
  induction contents with
  | nil => rfl
  | cons first others ih =>
      rw [literalsBefore, List.map_cons, List.flatMap_cons, List.append_assoc,
        isFlat_append (isFlat_quoted first)]
      exact (isFlat_without (by decide) (by decide) (by decide) _).trans ih

theorem isFlat_literalsBehind (contents : List (List Char)) :
    isFlat false (literalsBehind contents) = true := by
  induction contents with
  | nil => rfl
  | cons first others ih =>
      rw [literalsBehind, List.map_cons, List.flatMap_cons, List.cons_append,
        isFlat_without (by decide) (by decide) (by decide), isFlat_append (isFlat_quoted first)]
      exact ih

theorem isFlat_quotes (contents : List (List Char)) :
    isFlat false ([','].intercalate (contents.map quote)) = true := by
  cases contents with
  | nil => rfl
  | cons first others =>
      have around := intercalate_around [] (quote first) (others.map quote)
      rw [List.nil_append, ← List.map_cons, List.flatMap_nil, List.nil_append] at around
      rw [around, isFlat_append (isFlat_quoted first)]
      exact isFlat_literalsBehind others

theorem stopsName_literalsBefore (contents : List (List Char)) :
    StopsName (literalsBefore contents).reverse := by
  rcases List.eq_nil_or_concat contents with rfl | ⟨others, last, rfl⟩
  · exact stopsName_nil
  · have ends : literalsBefore (others.concat last) =
        literalsBefore others ++ quote last ++ [','] := by simp [literalsBefore]
    rw [ends, List.reverse_append]
    exact stopsName_cons (by decide) _

def joinScript (firsts group lasts : List (List Char)) : Script :=
  .group (literalsBefore firsts ++ textFunction) (.plain ([','].intercalate (group.map quote)))
    (.plain (literalsBehind lasts))

section JoinScript

variable (firsts group lasts : List (List Char))

theorem chars_joinScript :
    (joinScript firsts group lasts).chars =
      [','].intercalate (firsts.map quote ++ joinCall (group.map quote) :: lasts.map quote) := by
  rw [intercalate_around]
  simp [joinScript, Script.chars, joinCall, literalsBefore, literalsBehind]

theorem matched_joinScript : (joinScript firsts group lasts).Matched false :=
  ⟨(isFlat_append (isFlat_literalsBefore firsts) _).trans (isFlat_of_plain isPlain_textFunction),
    isFlat_quotes group, isFlat_literalsBehind lasts⟩

theorem names_joinScript {behind name : List Char} (stops : StopsName behind)
    (member : name ∈ callNamesFrom false behind (joinScript firsts group lasts).chars) :
    name = textFunction := by
  obtain ⟨flatLead, flatInner, flatBack⟩ := matched_joinScript firsts group lasts
  have named : nameBehind? ((literalsBefore firsts ++ textFunction).reverse ++ behind) =
      some textFunction := by
    rw [nameBehind?_append_of_stops _ stops, List.reverse_append,
      nameBehind?_append_of_stops _ (stopsName_literalsBefore firsts)]
    rfl
  simp only [joinScript, Script.chars] at member flatInner flatBack
  rw [List.append_assoc, List.cons_append, callNamesFrom_append, callNamesFrom_of_flat flatLead,
    endsQuoted_of_flat flatLead, callNamesFrom_opening, named, callNamesFrom_append,
    callNamesFrom_of_flat flatInner, endsQuoted_of_flat flatInner, callNamesFrom_closing,
    callNamesFrom_of_flat flatBack] at member
  simpa using member

theorem reduce_joinScript (settings : Settings) (limit : Nat) :
    (joinScript firsts group lasts).reduce (Registry.standard.call settings) limit 1 =
      .ok (.plain ([','].intercalate ((firsts ++ group.flatten :: lasts).map quote))) := by
  have named : Script.callName? (literalsBefore firsts ++ textFunction) = some textFunction := by
    rw [Script.callName?, List.reverse_append,
      nameBehind?_append_of_stops _ (stopsName_literalsBefore firsts)]
    rfl
  have front : Script.beforeName (literalsBefore firsts ++ textFunction) textFunction =
      literalsBefore firsts := by simp [Script.beforeName]
  have calls : (joinScript firsts group lasts).hasCall = true := by
    simp [joinScript, Script.hasCall, named]
  have step : (joinScript firsts group lasts).pass (Registry.standard.call settings) =
      .ok (.plain (literalsBefore firsts ++ quote group.flatten ++ literalsBehind lasts)) := by
    simp only [joinScript, Script.pass, Script.hasCall, Bool.false_eq_true, if_false, named,
      Script.chars, split_quotes, Registry.call_textFunction, concat_quotes, Outcome.ok_bind, front]
    rfl
  rw [Script.reduce, if_pos calls, step, Outcome.ok_bind, List.map_append, List.map_cons,
    intercalate_around, List.append_assoc]
  rfl

end JoinScript

section Formula

variable {settings : Settings} {arguments literals : List (List Char)}

theorem body_joinCall (arguments : List (List Char)) :
    Formula.body ('=' :: joinCall arguments) = joinCall arguments :=
  Formula.body_call (by rfl : Script.callName? textFunction = some textFunction) _

/-- A formula that joins has the joined text as its value, if its arguments resolve to a script that
reduces, one pass before the limit, to literals. -/
theorem Calculator.evaluate_joinCall {grid : Grid}
    (each : List.Forall₂ (ResolvesAsText grid settings) arguments literals)
    {inner residue : Script} (matched : inner.Matched false)
    (chars : inner.chars = [','].intercalate literals)
    (names : ∀ name ∈ callNamesFrom false ('(' :: textFunction.reverse) inner.chars,
      name = textFunction)
    {passes : Nat} (sooner : passes < settings.nestingLimit)
    (reduced : inner.reduce (Registry.standard.call settings) settings.nestingLimit passes =
      .ok residue)
    {contents : List (List Char)} (residueChars : residue.chars = [','].intercalate (contents.map quote)) :
    (⟨settings, .standard⟩ : Calculator).evaluate ('=' :: joinCall arguments) grid =
      .ok (.text contents.flatten) := by
  have resolved := resolve_joinCall each
  have whole : joinCall literals = textFunction ++ '(' :: (inner.chars ++ [')']) := by
    rw [joinCall, chars]
  have clean : Formula.check .standard ('=' :: joinCall arguments) = [] := by
    obtain ⟨sameNames, sameCheck⟩ := resolve_keeps resolved
    refine Formula.check_of_known ?_ ?_ ?_ <;> rw [body_joinCall]
    · simp [joinCall, textFunction]
    · rw [← sameCheck, whole, Script.check_group (Script.check_of_plain isPlain_textFunction) matched.checked]
      rfl
    · rw [← sameNames, whole, callNames, callNamesFrom_append,
        callNamesFrom_of_flat (isFlat_of_plain isPlain_textFunction), endsQuoted_plain _ isPlain_textFunction,
        callNamesFrom_opening, callNamesFrom_append, Script.endsQuoted_chars matched]
      intro name member
      obtain rfl : name = textFunction := by
        simp only [List.nil_append, List.append_nil, List.mem_append, Option.mem_toList] at member
        rcases member with own | within | behind
        · exact (Option.some.inj own).symm
        · exact names name within
        · simp [callNamesFrom] at behind
      rfl
  have step := Calculator.reduce_of_call ⟨settings, .standard⟩
    (by rfl : Script.callName? textFunction = some textFunction) matched sooner reduced
  rw [← whole, residueChars, split_quotes, Registry.call_textFunction, concat_quotes] at step
  rw [Calculator.evaluate, Calculator.check, clean]
  simp only [body_joinCall, resolved, step, Outcome.ok_bind]
  simp [Calculator.result, Value.literal, trim_quote, unquote?_quote]

end Formula

theorem Joined.forall₂_resolvesAsText {settings : Settings}
    (lenient : settings.strictReferences = false) (grid : Grid) (items : List Joined) :
    List.Forall₂ (ResolvesAsText grid settings) (items.map spelled)
      ((items.map (shown grid)).map quote) := by
  induction items with
  | nil => exact .nil
  | cons item items ih => exact .cons (item.resolvesAsText lenient) ih

/-- Joining is exact: texts and cells come out one behind the other, each text verbatim and each
cell as its value is shown, and it does not matter whether some neighbours are joined before. -/
theorem Calculator.evaluate_joined (settings : Settings)
    (lenient : settings.strictReferences = false) (nests : 2 ≤ settings.nestingLimit) (grid : Grid)
    (first group last : List Joined) :
    let value := Value.text ((first ++ group ++ last).flatMap (Joined.shown grid))
    (⟨settings, .standard⟩ : Calculator).evaluate
        ('=' :: joinCall ((first ++ group ++ last).map Joined.spelled)) grid = .ok value ∧
      (⟨settings, .standard⟩ : Calculator).evaluate
        ('=' :: joinCall (first.map Joined.spelled ++
          joinCall (group.map Joined.spelled) :: last.map Joined.spelled)) grid = .ok value := by
  have resolves := Joined.forall₂_resolvesAsText lenient grid
  constructor
  case left =>
    let inner := Script.plain
      ([','].intercalate (((first ++ group ++ last).map (Joined.shown grid)).map quote))
    have matched : inner.Matched false := isFlat_quotes _
    have names : ∀ name ∈ callNamesFrom false ('(' :: textFunction.reverse) inner.chars,
        name = textFunction := by
      have none := callNamesFrom_of_flat matched ('(' :: textFunction.reverse)
      intro name member
      rw [Script.chars, none] at member
      cases member
    have sooner : 0 < settings.nestingLimit := by omega
    rw [List.flatMap_def]
    exact Calculator.evaluate_joinCall (resolves _) matched rfl names sooner rfl rfl
  case right =>
    have joined : (first ++ group ++ last).flatMap (Joined.shown grid) =
        (first.map (Joined.shown grid) ++ (group.map (Joined.shown grid)).flatten ::
          last.map (Joined.shown grid)).flatten := by
      simp [List.flatMap_def]
    have each := List.rel_append (resolves first)
      (.cons (resolvesAsText_joinCall (resolves group)) (resolves last))
    rw [joined]
    exact Calculator.evaluate_joinCall each (matched_joinScript _ _ _) (chars_joinScript _ _ _)
      (fun name => names_joinScript _ _ _ (stopsName_opening _)) nests (reduce_joinScript _ _ _ _ _) rfl

/-- Texts that spell a quote, commas, parentheses, a cell and a call, with a number, a text and an
absent cell among them. -/
theorem Calculator.evaluate_joined_of_marks :
    Calculator.evaluate {} "=CONCAT(\"(\"\"A1,\",CONCAT(A1,\" )SUM(\"),B1,Z9)".toList
        ⟨[[.number 2.5, .text "x,y".toList]]⟩ =
      .ok (.text "(\"A1,2.5 )SUM(x,y".toList) := by
  let grid : Grid := ⟨[[.number 2.5, .text "x,y".toList]]⟩
  let number : CellWord := ⟨['A'], ['1'], by simp, by simp, rfl, rfl⟩
  let text : CellWord := ⟨['B'], ['1'], by simp, by simp, rfl, rfl⟩
  let absent : CellWord := ⟨['Z'], ['9'], by simp, by simp, rfl, rfl⟩
  let first : List Joined := [.text "(\"A1,".toList]
  let group : List Joined := [.cell number, .text " )SUM(".toList]
  let last : List Joined := [.cell text, .cell absent]
  have shown : (first ++ group ++ last).flatMap (Joined.shown grid) =
      "(\"A1,2.5 )SUM(x,y".toList := by decide +kernel
  have evaluated := (Calculator.evaluate_joined {} rfl (by decide) grid first group last).2
  rw [shown] at evaluated
  exact evaluated

end Worksheet
