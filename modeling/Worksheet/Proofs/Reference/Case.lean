import Mathlib
import Worksheet.Proofs.Reference.Slot
import Worksheet.Proofs.Script.Case

/-!
# Letter case in references

A reference reads the same in either case, and it stands in the capital form of a text where it
stands in the text. What a reference reads as holds no letter outside literals, so resolving the
capital form of a text gives the capital form of what the text resolves to.
-/

set_option autoImplicit false

namespace Worksheet

namespace Piece

def capitalParts (inside : Bool) (parts : List Char × List Char) : List Char × List Char :=
  (outerCapitals inside parts.1, outerCapitals inside parts.2)

theorem not_quote_of_isReferenceChar {text : List Char}
    (members : ∀ c ∈ text, isReferenceChar c = true) : '"' ∉ text :=
  fun member => absurd (members _ member) (by decide)

theorem outerCapitals_append_of_members {first : List Char}
    (members : ∀ c ∈ first, isReferenceChar c = true) (inside : Bool) (second : List Char) :
    outerCapitals inside (first ++ second) =
      outerCapitals inside first ++ outerCapitals inside second := by
  have plain : IsPlain first := fun c member => isReferenceChar_ne (members c member)
  rw [outerCapitals_append, endsQuoted_plain inside plain]

theorem outerCapitals_colon (inside : Bool) (rest : List Char) :
    outerCapitals inside (':' :: rest) = ':' :: outerCapitals inside rest := by
  cases inside <;> rfl

theorem run?_outerCapitals {member : Char → Bool} (ignores : IgnoresCase member)
    (noQuote : member '"' = false) (inside : Bool) (text : List Char) :
    run? member (outerCapitals inside text) = (run? member text).map (capitalParts inside) := by
  obtain ⟨taken, dropped⟩ := ignores.span_outerCapitals noQuote inside text
  unfold run?
  rw [taken, dropped]
  cases text.takeWhile member <;> rfl

variable {inside : Bool}

theorem bind_capitalParts {cut : Option (List Char × List Char)}
    {next next' : List Char × List Char → Option (List Char × List Char)}
    (same : ∀ parts, cut = some parts →
      next' (capitalParts inside parts) = (next parts).map (capitalParts inside)) :
    (cut.map (capitalParts inside)).bind next' = (cut.bind next).map (capitalParts inside) := by
  cases cut with
  | none => rfl
  | some parts => exact same parts rfl

theorem cellShape?_outerCapitals (text : List Char) :
    cellShape? (outerCapitals inside text) = (cellShape? text).map (capitalParts inside) := by
  unfold cellShape?
  rw [run?_outerCapitals ignoresCase_isAlpha (by decide)]
  refine bind_capitalParts fun (letters, rest) found => ?_
  have members := (takes_run? isAlphanum_of_isAlpha found).members
  refine Eq.trans (congrArg (Option.bind · _)
    (run?_outerCapitals ignoresCase_isDigit (by decide) inside rest)) ?_
  refine bind_capitalParts fun (digits, rest) _ => ?_
  exact congrArg (fun taken => some (taken, outerCapitals inside rest))
    (outerCapitals_append_of_members members inside digits).symm

theorem spacedColon?_outerCapitals (text : List Char) :
    spacedColon? (outerCapitals inside text) = (spacedColon? text).map (capitalParts inside) := by
  obtain ⟨taken, dropped⟩ := ignoresCase_isBlank.span_outerCapitals (by decide) inside text
  have blanks : ∀ c ∈ text.takeWhile isBlank, isReferenceChar c = true :=
    fun c member => by simp [isReferenceChar, List.mem_takeWhile_imp member]
  unfold spacedColon?
  rw [taken, dropped]
  cases text.dropWhile isBlank with
  | nil => rfl
  | cons c rest =>
      by_cases colon : c = ':'
      · subst colon
        obtain ⟨behind, beyond⟩ := ignoresCase_isBlank.span_outerCapitals (by decide) inside rest
        rw [outerCapitals_colon]
        simp only [behind, beyond, Option.map_some, capitalParts, outerCapitals_colon,
          outerCapitals_append_of_members blanks]
      · have stays : outerCapital inside c ≠ ':' := by rwa [Ne, outerCapital_eq_iff (by decide)]
        simp [outerCapitals_cons, colon, stays]

theorem cornersShape?_outerCapitals (text : List Char) :
    cornersShape? (outerCapitals inside text) = (cornersShape? text).map (capitalParts inside) := by
  unfold cornersShape?
  rw [cellShape?_outerCapitals]
  refine bind_capitalParts fun (first, rest) found => ?_
  have firstMembers := (takes_cellShape? found).members
  refine Eq.trans (congrArg (Option.bind · _) (spacedColon?_outerCapitals rest)) ?_
  refine bind_capitalParts fun (colon, rest) found => ?_
  have colonMembers := (spacedColon?_eq_some found).2
  refine Eq.trans (congrArg (Option.bind · _) (cellShape?_outerCapitals rest)) ?_
  refine bind_capitalParts fun (last, rest) _ => ?_
  have whole : outerCapitals inside (first ++ colon ++ last) =
      outerCapitals inside first ++ outerCapitals inside colon ++ outerCapitals inside last := by
    rw [List.append_assoc, outerCapitals_append_of_members firstMembers,
      outerCapitals_append_of_members colonMembers, List.append_assoc]
  exact congrArg (fun taken => some (taken, outerCapitals inside rest)) whole.symm

theorem pairShape?_outerCapitals {member : Char → Bool} (ignores : IgnoresCase member)
    (alphanumeric : ∀ c, member c = true → c.isAlphanum = true) (text : List Char) :
    pairShape? member (outerCapitals inside text) =
      (pairShape? member text).map (capitalParts inside) := by
  have noQuote : member '"' = false := by
    by_contra isMember
    exact absurd (alphanumeric '"' (by simpa using isMember)) (by decide)
  unfold pairShape?
  rw [run?_outerCapitals ignores noQuote]
  refine bind_capitalParts fun (first, rest) found => ?_
  have members := (takes_run? alphanumeric found).members
  cases rest with
  | nil => rfl
  | cons c rest =>
      by_cases colon : c = ':'
      · subst colon
        simp only [capitalParts, outerCapitals_colon]
        refine Eq.trans (congrArg (Option.bind · _)
          (run?_outerCapitals ignores noQuote inside rest)) ?_
        refine bind_capitalParts fun (last, rest) _ => ?_
        have whole : outerCapitals inside (first ++ ':' :: last) =
            outerCapitals inside first ++ ':' :: outerCapitals inside last := by
          rw [outerCapitals_append_of_members members, outerCapitals_colon]
        exact congrArg (fun taken => some (taken, outerCapitals inside rest)) whole.symm
      · have stays : outerCapital inside c ≠ ':' := by rwa [Ne, outerCapital_eq_iff (by decide)]
        simp [capitalParts, outerCapitals_cons, colon, stays]

theorem ignoresCase_isWord : IgnoresCase isWord :=
  ignoresCase_of_letters (by decide)

theorem wordEdge_outerCapitals (inside : Bool) (text : List Char) :
    wordEdge (outerCapitals inside text).head? = wordEdge text.head? ∧
      wordEdge (outerCapitals inside text).getLast? = wordEdge text.getLast? := by
  have same := ignoresCase_isWord.map_outerCapitals inside text
  have edge (neighbour : Option Char) : wordEdge neighbour = !(neighbour.map isWord).any id := by
    cases neighbour <;> rfl
  simp only [edge, ← List.head?_map, ← List.getLast?_map, same, and_self]

theorem word?_capitalParts (shape : Option (List Char × List Char)) :
    word? (shape.map (capitalParts inside)) = (word? shape).map (outerCapitals inside) := by
  cases shape with
  | none => rfl
  | some parts =>
      obtain ⟨taken, rest⟩ := parts
      simp only [word?, Option.map_some, capitalParts, Option.bind_eq_bind, Option.bind_some,
        (wordEdge_outerCapitals inside rest).1]
      split <;> rfl

def raised (inside : Bool) : Piece → Piece
  | plain c => plain (outerCapital inside c)
  | range token => range (outerCapitals inside token)
  | cell token => cell (outerCapitals inside token)

theorem chars_raised (inside : Bool) (piece : Piece) :
    (piece.raised inside).chars = outerCapitals inside piece.chars := by
  cases piece <;> rfl

def raiseAll (inside : Bool) : List Piece → List Piece
  | [] => []
  | piece :: rest => piece.raised inside :: raiseAll (endsQuoted inside piece.chars) rest

theorem reference?_outerCapitals (inside : Bool) (text : List Char) :
    reference? (outerCapitals inside text) = (reference? text).map (raised inside) := by
  have found (make : List Char → Piece)
      (makes : ∀ token, (make token).raised inside = make (outerCapitals inside token))
      {shape : List Char → Option (List Char × List Char)}
      (same : shape (outerCapitals inside text) = (shape text).map (capitalParts inside)) :
      (word? (shape (outerCapitals inside text))).map make =
        ((word? (shape text)).map make).map (raised inside) := by
    rw [same, word?_capitalParts, Option.map_map, Option.map_map]
    congr 1
    funext token
    exact (makes token).symm
  unfold reference?
  rw [found range (fun _ => rfl) (cornersShape?_outerCapitals text),
    found range (fun _ => rfl)
      (pairShape?_outerCapitals ignoresCase_isAlpha isAlphanum_of_isAlpha text),
    found range (fun _ => rfl)
      (pairShape?_outerCapitals ignoresCase_isDigit isAlphanum_of_isDigit text),
    found cell (fun _ => rfl) (cellShape?_outerCapitals text)]
  simp only [Option.orElse_eq_orElse, Option.orElse_eq_or, Option.map_or]

/-- A reference stands in the capital form of a text where it stands in the text. -/
theorem ofCharsAfter_outerCapitals (previous : Option Char) (text : List Char) :
    ∀ (previous' : Option Char) (inside : Bool), wordEdge previous' = wordEdge previous →
      ofCharsAfter previous' (outerCapitals inside text) =
        raiseAll inside (ofCharsAfter previous text) := by
  induction previous, text using ofCharsAfter_induction with
  | nil previous =>
      intro previous' inside _
      rw [outerCapitals_nil, ofCharsAfter_nil]
      rfl
  | reference previous text piece rest edge found starts ih =>
      intro previous' inside sameEdge
      have plain : IsPlain piece.chars :=
        fun c member => isReferenceChar_ne (starts.members c member)
      have raisedFound : reference? (outerCapitals inside text) = some (piece.raised inside) := by
        rw [reference?_outerCapitals, found]
        rfl
      obtain ⟨behind, raisedStarts⟩ := starts_of_reference? raisedFound
      obtain rfl : behind = outerCapitals inside rest := by
        have split := raisedStarts.text_eq
        rw [starts.text_eq, outerCapitals_append_of_members starts.members, chars_raised] at split
        exact (List.append_cancel_left split).symm
      rw [ofCharsAfter_of_starts (sameEdge.trans edge) raisedFound raisedStarts, raiseAll,
        endsQuoted_plain inside plain, ih]
      rw [chars_raised]
      exact (wordEdge_outerCapitals inside piece.chars).2
  | plain previous c rest none ih =>
      intro previous' inside sameEdge
      have raisedNone : wordEdge previous' = true →
          reference? (outerCapitals inside (c :: rest)) = Option.none := by
        intro edge
        rw [reference?_outerCapitals, none (sameEdge.symm.trans edge)]
        rfl
      rw [outerCapitals_cons] at raisedNone ⊢
      rw [ofCharsAfter_of_none raisedNone, raiseAll, ih]
      · rfl
      · simp [wordEdge, ignoresCase_isWord.outerCapital]

theorem opensCall_raiseAll (inside : Bool) (pieces : List Piece) :
    opensCall (raiseAll inside pieces) = opensCall pieces := by
  cases pieces with
  | nil => rfl
  | cons piece rest =>
      cases piece with
      | plain c =>
          by_cases opening : c = '('
          · subst opening
            cases inside <;> rfl
          · simp [raiseAll, raised, opensCall, opening]
      | _ => rfl

end Piece

/-! ## Literals of references -/

theorem trim_capitals (text : List Char) : trim (capitals text) = capitals (trim text) := by
  have blank : isBlank ∘ Char.toUpper = isBlank := funext ignoresCase_isBlank
  simp only [trim, trimEnd, capitals, List.dropWhile_map, ← List.map_reverse, blank]

theorem column?_capitals (letters : List Char) : column? (capitals letters) = column? letters := by
  have ignores : IgnoresCase letterOrdinal := fun c => by simp [letterOrdinal]
  have alpha : (capitals letters).all Char.isAlpha = letters.all Char.isAlpha := by
    simp [capitals, Function.comp_def, ignoresCase_isAlpha _]
  have empty : capitals letters = [] ↔ letters = [] := by simp [capitals]
  have ordinal : lettersOrdinal (capitals letters) = lettersOrdinal letters := by
    simp only [lettersOrdinal, capitals, List.foldl_map, ignores _]
  simp only [column?, alpha, Ne, empty, ordinal]

theorem row?_capitals (digits : List Char) : row? (capitals digits) = row? digits := by
  have same : Numeral.natural? (capitals digits) = Numeral.natural? digits := by
    have numeric : (capitals digits).all Char.isDigit = digits.all Char.isDigit := by
      simp [capitals, Function.comp_def, ignoresCase_isDigit _]
    by_cases all : digits.all Char.isDigit = true
    · have raised : digits.map Char.toUpper = digits :=
        (List.map_congr_left fun c member =>
          @toUpper_of_member Char.isDigit (by decide) c (List.all_eq_true.mp all c member)).trans
          (List.map_id digits)
      rw [capitals, raised]
    · simp [Numeral.natural?, numeric, all]
  rw [row?, row?, same]

theorem Cell.read?_capitals (text : List Char) : Cell.read? (capitals text) = Cell.read? text := by
  have alpha : Char.isAlpha ∘ Char.toUpper = Char.isAlpha := funext ignoresCase_isAlpha
  unfold read? ofName?
  rw [trim_capitals]
  have letters := column?_capitals ((trim text).takeWhile Char.isAlpha)
  have digits := row?_capitals ((trim text).dropWhile Char.isAlpha)
  simp only [capitals] at letters digits ⊢
  simp only [List.takeWhile_map, List.dropWhile_map, alpha, letters, digits]

theorem Range.splitColon?_capitals (text : List Char) :
    splitColon? (capitals text) =
      (splitColon? text).map fun (left, right) => (capitals left, capitals right) := by
  have colon : (fun c => c != ':') ∘ Char.toUpper = fun c => c != ':' := by
    funext c
    rw [Function.comp_apply, Bool.eq_iff_iff]
    simp [toUpper_eq_iff]
  simp only [splitColon?, capitals, List.dropWhile_map, List.takeWhile_map, colon]
  cases text.dropWhile (· != ':') <;> rfl

theorem Range.read?_capitals (text : List Char) :
    Range.read? (capitals text) = Range.read? text := by
  unfold read?
  rw [trim_capitals, splitColon?_capitals]
  cases splitColon? (trim text) with
  | none => rfl
  | some parts =>
      obtain ⟨left, right⟩ := parts
      simp only [Option.map_some, Option.bind_eq_bind, Option.bind_some, trim_capitals,
        Cell.read?_capitals, column?_capitals, row?_capitals]

theorem outerCapitals_numbersLiteral {numbers : List Float}
    (finite : ∀ x ∈ numbers, x.isFinite = true) :
    outerCapitals false (numbersLiteral numbers) = numbersLiteral numbers := by
  cases numbers with
  | nil => decide
  | cons first rest =>
      change outerCapitals false ([','].intercalate ((first :: rest).map numberLiteral)) =
        [','].intercalate ((first :: rest).map numberLiteral)
      induction rest generalizing first with
      | nil =>
          simpa [List.intercalate] using
            (isLiteral_numberLiteral (finite first (by simp))).outerCapitals_eq
      | cons second rest ih =>
          have later := ih second fun x member => finite x (List.mem_cons_of_mem _ member)
          have here := isLiteral_numberLiteral (finite first (by simp))
          have split : [','].intercalate ((first :: second :: rest).map numberLiteral) =
              numberLiteral first ++
                ',' :: [','].intercalate ((second :: rest).map numberLiteral) := by
            simp [List.intercalate]
          have comma (rest : List Char) :
              outerCapitals false (',' :: rest) = ',' :: outerCapitals false rest := rfl
          rw [split, outerCapitals_append, here.outerCapitals_eq, here.closed, comma, later]

variable (grid : Grid) (settings : Settings)

theorem unresolved_capitals (token : List Char) {fallback : List Char}
    (settled : outerCapitals false fallback = fallback) :
    unresolved settings (capitals token) fallback =
      (unresolved settings token fallback).map (outerCapitals false) := by
  unfold unresolved
  rw [capitals_capitals]
  split
  · rfl
  · rw [Except.map, settled]

theorem rangeLiteral_capitals (readsText : Bool) {token : List Char} (noQuote : '"' ∉ token) :
    rangeLiteral grid settings readsText (capitals token) =
      (rangeLiteral grid settings readsText token).map (outerCapitals false) := by
  have empty : outerCapitals false emptyRangeLiteral = emptyRangeLiteral := by decide
  unfold rangeLiteral
  rw [Range.read?_capitals]
  split
  · rw [Except.map, (outerCapitals_of_no_quote noQuote).2]
  · split
    · exact unresolved_capitals settings token empty
    · split
      · exact unresolved_capitals settings token empty
      · rw [Except.map, outerCapitals_numbersLiteral fun _ => isFinite_of_mem_numbers]

theorem cellLiteral_capitals (readsText : Bool) (token : List Char) :
    cellLiteral grid settings readsText (capitals token) =
      (cellLiteral grid settings readsText token).map (outerCapitals false) := by
  have same : cellLiteral grid settings readsText (capitals token) =
      cellLiteral grid settings readsText token := by
    unfold cellLiteral unresolved
    rw [Cell.read?_capitals, capitals_capitals]
  rw [same]
  cases read : cellLiteral grid settings readsText token with
  | error error => rfl
  | ok literal => rw [Except.map, (isLiteral_cellLiteral read).outerCapitals_eq]

structure Place.SameCase (first second : Place) : Prop where
  inside : second.inside = first.inside
  behind : capitals second.behind = capitals first.behind
  levels : second.textLevels = first.textLevels

namespace Place.SameCase

variable {first second : Place} (same : first.SameCase second)
include same

theorem readsText : second.readsText = first.readsText := by
  rw [Place.readsText, Place.readsText, same.levels]

theorem opensText : second.opensText = first.opensText := by
  have names := congrArg nameBehind? same.behind
  rw [nameBehind?_capitals, nameBehind?_capitals] at names
  unfold Place.opensText
  cases found : nameBehind? second.behind with
  | none =>
      rw [found, Option.map_none, eq_comm, Option.map_eq_none_iff] at names
      rw [names]
      exact same.readsText
  | some name =>
      rw [found, Option.map_some, eq_comm, Option.map_eq_some_iff] at names
      obtain ⟨other, otherFound, sameName⟩ := names
      rw [otherFound]
      simp only [sameName]

theorem step (c : Char) : (first.step c).SameCase (second.step (outerCapital first.inside c)) := by
  refine ⟨?_, ?_, ?_⟩
  · simp only [Place.step, outerCapital_eq_quote, same.inside]
  · simp only [Place.step, capitals_cons, toUpper_outerCapital, same.behind]
  · simp only [Place.step, outerCapital_eq_opening, outerCapital_eq_closing, same.inside,
      same.levels, same.opensText]

theorem foldl (text : List Char) :
    (text.foldl Place.step first).SameCase
      ((outerCapitals first.inside text).foldl Place.step second) := by
  induction text generalizing first second with
  | nil => exact same
  | cons c rest ih => exact ih (same.step c)

end Place.SameCase

/-! ## Resolving -/

variable {grid settings}

theorem resolvePiece_raised {first second : Place} (same : first.SameCase second) {piece : Piece}
    (noQuote : first.inside = false → ∀ token, piece = .range token ∨ piece = .cell token →
      '"' ∉ token) (rest : List Piece) :
    resolvePiece grid settings second (piece.raised first.inside)
        (Piece.raiseAll (endsQuoted first.inside piece.chars) rest) =
      (resolvePiece grid settings first piece rest).map (outerCapitals first.inside) := by
  unfold resolvePiece
  rw [same.inside, Piece.opensCall_raiseAll]
  split
  · rw [Piece.chars_raised]
    rfl
  · rename_i outside
    simp only [Bool.or_eq_true, not_or, Bool.not_eq_true] at outside
    rw [outside.1, same.readsText]
    cases piece with
    | plain c => rfl
    | range token =>
        have tokenNoQuote := noQuote outside.1 token (.inl rfl)
        simp only [Piece.raised, (outerCapitals_of_no_quote tokenNoQuote).2]
        exact rangeLiteral_capitals grid settings first.readsText tokenNoQuote
    | cell token =>
        have tokenNoQuote := noQuote outside.1 token (.inr rfl)
        simp only [Piece.raised, (outerCapitals_of_no_quote tokenNoQuote).2]
        exact cellLiteral_capitals grid settings first.readsText token

theorem endsQuoted_of_resolvePiece {place : Place} {piece : Piece} {rest : List Piece}
    {literal : List Char} (plain : IsPlain piece.chars)
    (read : resolvePiece grid settings place piece rest = .ok literal) :
    endsQuoted place.inside literal = endsQuoted place.inside piece.chars := by
  rcases resolvePiece_cases (isFlat_of_plain plain) read with rfl | ⟨outside, _, operand⟩
  · rfl
  · rw [outside, operand.endsQuoted_eq, endsQuoted_plain false plain]

theorem resolvePieces_cons_raised {first second : Place} {piece : Piece} {rest : List Piece}
    (here : resolvePiece grid settings second (piece.raised first.inside)
        (Piece.raiseAll (endsQuoted first.inside piece.chars) rest) =
      (resolvePiece grid settings first piece rest).map (outerCapitals first.inside))
    (ends : ∀ literal, resolvePiece grid settings first piece rest = .ok literal →
      endsQuoted first.inside literal = endsQuoted first.inside piece.chars)
    (later : resolvePieces grid settings
        ((outerCapitals first.inside piece.chars).foldl Place.step second)
        (Piece.raiseAll (endsQuoted first.inside piece.chars) rest) =
      (resolvePieces grid settings (piece.chars.foldl Place.step first) rest).map
        (outerCapitals (endsQuoted first.inside piece.chars))) :
    resolvePieces grid settings second (Piece.raiseAll first.inside (piece :: rest)) =
      (resolvePieces grid settings first (piece :: rest)).map (outerCapitals first.inside) := by
  rw [Piece.raiseAll, resolvePieces, resolvePieces, here, Piece.chars_raised, later]
  cases read : resolvePiece grid settings first piece rest with
  | error error => rfl
  | ok literal =>
      cases resolvePieces grid settings (piece.chars.foldl Place.step first) rest with
      | error error => rfl
      | ok others =>
          refine congrArg Except.ok ?_
          rw [outerCapitals_append, ends literal read]

theorem resolvePieces_raised (previous : Option Char) (text : List Char) :
    ∀ first second : Place, first.SameCase second →
      resolvePieces grid settings second
          (Piece.raiseAll first.inside (Piece.ofCharsAfter previous text)) =
        (resolvePieces grid settings first (Piece.ofCharsAfter previous text)).map
          (outerCapitals first.inside) := by
  induction previous, text using Piece.ofCharsAfter_induction with
  | nil previous =>
      intro first second _
      rfl
  | reference previous text piece rest _ _ starts ih =>
      intro first second same
      have plain : IsPlain piece.chars :=
        fun c member => Piece.isReferenceChar_ne (starts.members c member)
      have noQuote : '"' ∉ piece.chars := Piece.not_quote_of_isReferenceChar starts.members
      have later := ih _ _ (same.foldl piece.chars)
      rw [Place.inside_foldl] at later
      refine resolvePieces_cons_raised (resolvePiece_raised same (fun _ token isToken => ?_) _)
        (fun literal => endsQuoted_of_resolvePiece plain) later
      rcases isToken with rfl | rfl <;> exact noQuote
  | plain previous c rest _ ih =>
      intro first second same
      have later := ih _ _ (same.foldl [c])
      rw [Place.inside_foldl] at later
      refine resolvePieces_cons_raised (resolvePiece_raised same (fun _ token isToken => ?_) _)
        (fun literal read => ?_) later
      · rcases isToken with other | other <;> cases other
      · rw [resolvePiece_plain] at read
        obtain rfl := Except.ok.inj read
        rfl

theorem resolve_outerCapitals (grid : Grid) (settings : Settings) (text : List Char) :
    resolve grid settings (outerCapitals false text) =
      (resolve grid settings text).map (outerCapitals false) := by
  have pieces : Piece.ofChars (outerCapitals false text) =
      Piece.raiseAll false (Piece.ofChars text) :=
    Piece.ofCharsAfter_outerCapitals none text none false rfl
  rw [resolve, pieces]
  exact resolvePieces_raised none text {} {} ⟨rfl, rfl, rfl⟩

end Worksheet
