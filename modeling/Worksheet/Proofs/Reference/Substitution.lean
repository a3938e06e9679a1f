import Mathlib
import Worksheet.Proofs.Reference.Pattern
import Worksheet.Proofs.Reference.Enclosing

/-!
# What resolving replaces

A script is read from the left. Where the pattern of references matches, the match is replaced,
unless it lies in a literal or is the name of a call, and reading goes on behind it. Everything else
is kept, one character after the other. How a match reads depends on the innermost call around it.

`Substitutes` says this about the text alone: matches by the pattern, literals by the number of
quotes in front, calls by their names and their parentheses. `resolve_exactly` says that resolving a
script does this and nothing else.
-/

set_option autoImplicit false

namespace Worksheet

def InLiteral (front : List Char) : Prop :=
  front.count '"' % 2 = 1

/-- Behind the start `front` of a script text is read if the innermost call around that place is one
of `CONCAT`, in any case. -/
def ReadsText (script front : List Char) : Prop :=
  ∃ site, Script.IsAround script (Script.byteSize front) site ∧ capitals site.name = textFunction

/-- The literal of a match: where text is read, a range itself, what a present cell shows, in
quotes, and an empty literal for an absent cell; elsewhere the numbers of a range and the operand of
a cell. -/
inductive ReadsAs (grid : Grid) (settings : Settings) (inText : Prop) : Piece → List Char → Prop
  | verbatim (token : List Char) (text : inText) : ReadsAs grid settings inText (.range token) token
  | quoted (token : List Char) (value : Value) (text : inText)
      (present : (Cell.read? token).bind grid.get? = some value) :
      ReadsAs grid settings inText (.cell token) (quote value.shown)
  | absent (token : List Char) (text : inText)
      (absent : (Cell.read? token).bind grid.get? = none)
      (lenient : settings.strictReferences = false) :
      ReadsAs grid settings inText (.cell token) ['"', '"']
  | range (token literal : List Char) (noText : ¬ inText)
      (reads : rangeLiteral grid settings false token = .ok literal) :
      ReadsAs grid settings inText (.range token) literal
  | cell (token literal : List Char) (noText : ¬ inText)
      (reads : cellLiteral grid settings false token = .ok literal) :
      ReadsAs grid settings inText (.cell token) literal

def IsKept (front rest : List Char) : Prop :=
  InLiteral front ∨ rest.head? = some '('

/-- What a match becomes, with `front` in front of it and `rest` behind it in the script. -/
inductive Becomes (grid : Grid) (settings : Settings) (script front rest : List Char)
    (piece : Piece) : List Char → Prop
  | kept (stays : IsKept front rest) : Becomes grid settings script front rest piece piece.chars
  | replaced (literal : List Char) (goes : ¬ IsKept front rest)
      (reads : ReadsAs grid settings (ReadsText script front) piece literal) :
      Becomes grid settings script front rest piece literal

/-- What the part `text` of a script becomes, with `front` in front of it. -/
inductive Substitutes (grid : Grid) (settings : Settings) (script : List Char) :
    (front text output : List Char) → Prop
  | nil (front : List Char) : Substitutes grid settings script front [] []
  | char {front rest output : List Char} {c : Char}
      (noMatch : ∀ piece behind, ¬ Matches front.getLast? (c :: rest) piece behind)
      (others : Substitutes grid settings script (front ++ [c]) rest output) :
      Substitutes grid settings script front (c :: rest) (c :: output)
  | token {front text rest literal output : List Char} {piece : Piece}
      (found : Matches front.getLast? text piece rest)
      (becomes : Becomes grid settings script front rest piece literal)
      (others : Substitutes grid settings script (front ++ piece.chars) rest output) :
      Substitutes grid settings script front text (literal ++ output)

variable {grid : Grid} {settings : Settings} {script : List Char}

theorem unresolved_eq_ok_iff {token fallback literal : List Char} :
    unresolved settings token fallback = .ok literal ↔
      settings.strictReferences = false ∧ literal = fallback := by
  rw [unresolved]
  cases settings.strictReferences <;> simp [eq_comm]

section

variable {inText : Prop} {readsText : Bool} (flag : readsText = true ↔ inText)
  {token literal : List Char}
include flag

theorem rangeLiteral_eq_ok_iff :
    rangeLiteral grid settings readsText token = .ok literal ↔
      ReadsAs grid settings inText (.range token) literal := by
  cases readsText with
  | true =>
      have text := flag.mp rfl
      rw [rangeLiteral, if_pos rfl]
      constructor
      · rintro ⟨⟩
        exact .verbatim token text
      · intro reads
        cases reads with
        | verbatim => rfl
        | range _ _ noText => exact absurd text noText
  | false =>
      have noText : ¬ inText := fun text => Bool.false_ne_true (flag.mpr text)
      constructor
      · exact .range token literal noText
      · intro reads
        cases reads with
        | verbatim _ text => exact absurd text noText
        | range _ _ _ reads => exact reads

theorem cellLiteral_eq_ok_iff :
    cellLiteral grid settings readsText token = .ok literal ↔
      ReadsAs grid settings inText (.cell token) literal := by
  cases readsText with
  | true =>
      have text := flag.mp rfl
      rw [cellLiteral]
      constructor
      · intro reads
        split at reads
        · rename_i absent
          obtain ⟨lenient, rfl⟩ := unresolved_eq_ok_iff.mp reads
          exact .absent token text absent lenient
        · rename_i value present
          cases reads
          exact .quoted token value text present
      · intro reads
        cases reads with
        | quoted _ value _ present => rw [present]; rfl
        | absent _ _ absent lenient =>
            rw [absent]
            exact unresolved_eq_ok_iff.mpr ⟨lenient, rfl⟩
        | cell _ _ noText => exact absurd text noText
  | false =>
      have noText : ¬ inText := fun text => Bool.false_ne_true (flag.mpr text)
      constructor
      · exact .cell token literal noText
      · intro reads
        cases reads with
        | quoted _ _ text => exact absurd text noText
        | absent _ text => exact absurd text noText
        | cell _ _ _ reads => exact reads

end

theorem resolvePiece_eq_ok_iff {previous : Option Char} {front text rest literal : List Char}
    {piece : Piece} {place : Place} {others : List Piece}
    (found : Matches previous text piece rest)
    (inside : place.inside = true ↔ InLiteral front)
    (opens : Piece.opensCall others = true ↔ rest.head? = some '(')
    (readsText : place.readsText = true ↔ ReadsText script front) :
    resolvePiece grid settings place piece others = .ok literal ↔
      Becomes grid settings script front rest piece literal := by
  have kept : (place.inside || Piece.opensCall others) = true ↔ IsKept front rest := by
    rw [Bool.or_eq_true, inside, opens, IsKept]
  unfold resolvePiece
  by_cases stays : IsKept front rest
  · rw [if_pos (kept.mpr stays)]
    constructor
    · rintro ⟨⟩
      exact .kept stays
    · rintro (_ | ⟨_, goes, _⟩)
      · rfl
      · exact absurd stays goes
  · rw [if_neg (mt kept.mp stays)]
    have reads : Becomes grid settings script front rest piece literal ↔
        ReadsAs grid settings (ReadsText script front) piece literal := by
      constructor
      · rintro (kept | ⟨_, _, reads⟩)
        · exact absurd kept stays
        · exact reads
      · exact .replaced literal stays
    rw [reads]
    cases found with
    | range => exact rangeLiteral_eq_ok_iff readsText
    | cell => exact cellLiteral_eq_ok_iff readsText

theorem noMatch_of_none {previous : Option Char} {text : List Char}
    (none : wordEdge previous = true → Piece.reference? text = none) (piece : Piece)
    (behind : List Char) : ¬ Matches previous text piece behind := by
  intro found
  obtain ⟨edge, some, _⟩ := Piece.matches_iff.mp found
  rw [none edge] at some
  cases some

theorem Matches.unique {previous : Option Char} {text rest rest' : List Char} {piece piece' : Piece}
    (first : Matches previous text piece rest) (second : Matches previous text piece' rest') :
    piece = piece' ∧ rest = rest' := by
  obtain ⟨_, found, text_eq⟩ := Piece.matches_iff.mp first
  obtain ⟨_, found', text_eq'⟩ := Piece.matches_iff.mp second
  obtain rfl := Option.some.inj (found.symm.trans found')
  exact ⟨rfl, List.append_cancel_left (text_eq.symm.trans text_eq')⟩

theorem not_matches_nil {previous : Option Char} {rest : List Char} {piece : Piece} :
    ¬ Matches previous [] piece rest := by
  intro found
  obtain ⟨_, found, _⟩ := Piece.matches_iff.mp found
  cases found

theorem substitutes_nil_iff {front output : List Char} :
    Substitutes grid settings script front [] output ↔ output = [] := by
  constructor
  · generalize same : ([] : List Char) = text
    intro substitutes
    cases substitutes with
    | nil => rfl
    | char => cases same
    | token found => exact absurd (same ▸ found) not_matches_nil
  · rintro rfl
    exact .nil front

theorem substitutes_char_iff {front rest output : List Char} {c : Char}
    (noMatch : ∀ piece behind, ¬ Matches front.getLast? (c :: rest) piece behind) :
    Substitutes grid settings script front (c :: rest) output ↔
      ∃ others, Substitutes grid settings script (front ++ [c]) rest others ∧
        output = c :: others := by
  constructor
  · generalize same : c :: rest = text
    intro substitutes
    cases substitutes with
    | nil => cases same
    | char _ others =>
        obtain ⟨rfl, rfl⟩ := List.cons.inj same
        exact ⟨_, others, rfl⟩
    | token found => exact absurd (same ▸ found) (noMatch _ _)
  · rintro ⟨others, substitutes, rfl⟩
    exact .char noMatch substitutes

theorem substitutes_token_iff {front text rest output : List Char} {piece : Piece}
    (found : Matches front.getLast? text piece rest) :
    Substitutes grid settings script front text output ↔
      ∃ literal, Becomes grid settings script front rest piece literal ∧
        ∃ others, Substitutes grid settings script (front ++ piece.chars) rest others ∧
          output = literal ++ others := by
  constructor
  · intro substitutes
    cases substitutes with
    | nil => exact absurd found not_matches_nil
    | char noMatch => exact absurd found (noMatch _ _)
    | token found' becomes others =>
        obtain ⟨rfl, rfl⟩ := found.unique found'
        exact ⟨_, becomes, _, others, rfl⟩
  · rintro ⟨literal, becomes, others, substitutes, rfl⟩
    exact .token found becomes substitutes

/-- Behind the start of a script the pieces of the rest resolve to what the rest becomes. -/
theorem resolvePieces_eq_ok_iff {parsed : Script} (matched : parsed.Matched false)
    (previous : Option Char) (text : List Char) :
    ∀ front output, parsed.chars = front ++ text → front.getLast? = previous →
      (resolvePieces grid settings (front.foldl Place.step {}) (Piece.ofCharsAfter previous text) =
          .ok output ↔ Substitutes grid settings parsed.chars front text output) := by
  induction previous, text using Piece.ofCharsAfter_induction with
  | nil previous =>
      intro front output _ _
      rw [substitutes_nil_iff, resolvePieces, Except.ok.injEq, eq_comm]
  | reference previous text piece rest edge found starts ih =>
      intro front output whole last
      have isMatch : Matches front.getLast? text piece rest :=
        last ▸ Piece.matches_iff.mpr ⟨edge, found, starts.text_eq⟩
      have inside : (front.foldl Place.step {}).inside = true ↔ InLiteral front := by
        rw [Place.inside_foldl, InLiteral, ← Bool.not_eq_false, endsQuoted_eq_false_iff]
        omega
      have becomes (literal : List Char) :=
        @resolvePiece_eq_ok_iff grid settings parsed.chars _ _ _ _ literal _ _ _ isMatch inside
          (Piece.opensCall_ofCharsAfter piece.chars.getLast? rest)
          (Place.readsText_iff matched whole)
      have ends : (front ++ piece.chars).getLast? = piece.chars.getLast? := by
        obtain ⟨first, more, begins, _⟩ := starts.begins
        rw [begins, List.getLast?_append_of_ne_nil _ (List.cons_ne_nil first more)]
      have others (output : List Char) := ih (front ++ piece.chars) output
        (by rw [whole, starts.text_eq, List.append_assoc]) ends
      rw [substitutes_token_iff isMatch, resolvePieces_cons_eq_ok_iff]
      rw [List.foldl_append] at others
      simp only [becomes, others]
  | plain previous c rest none ih =>
      intro front output whole last
      have noMatch : ∀ piece behind, ¬ Matches front.getLast? (c :: rest) piece behind :=
        last ▸ noMatch_of_none none
      have others (output : List Char) := ih (front ++ [c]) output (by simp [whole]) (by simp)
      rw [substitutes_char_iff noMatch, resolvePieces_plain_eq_ok_iff]
      rw [List.foldl_append] at others
      exact exists_congr fun rest => and_congr_left fun _ => others rest

/-- Resolving a script replaces its references, each by the literal that its place asks for, and
keeps everything else. -/
theorem resolve_exactly (grid : Grid) (settings : Settings) {script : List Char} {parsed : Script}
    (read : Script.ofChars script = .ok parsed) (output : List Char) :
    resolve grid settings script = .ok output ↔
      Substitutes grid settings script [] script output := by
  obtain ⟨matched, rfl⟩ := Script.ofChars_eq_ok.mp read
  exact resolvePieces_eq_ok_iff matched none parsed.chars [] output rfl rfl

/-- Names of cells stand in a literal, in front of a parenthesis, behind a character of more than one
byte, and in groups and calls, one of which reads text. -/
theorem resolve_exactly_of_places :
    Substitutes ⟨[[.text "x".toList], [.number 2]]⟩ {}
      "Concat(A2,(Z9),\"A1\"\"\",A1:A2)+é+SUM(A1 : A2,A1)+A1(A2)".toList []
      "Concat(A2,(Z9),\"A1\"\"\",A1:A2)+é+SUM(A1 : A2,A1)+A1(A2)".toList
      "Concat(\"2\",(\"\"),\"A1\"\"\",A1:A2)+é+SUM(2,\"x\")+A1(2)".toList :=
  (resolve_exactly ⟨[[.text "x".toList], [.number 2]]⟩ {}
    (by decide +kernel :
      Script.ofChars "Concat(A2,(Z9),\"A1\"\"\",A1:A2)+é+SUM(A1 : A2,A1)+A1(A2)".toList =
        .ok (.group "Concat".toList
          (.group "A2,".toList (.plain "Z9".toList) (.plain ",\"A1\"\"\",A1:A2".toList))
          (.group "+é+SUM".toList (.plain "A1 : A2,A1".toList)
            (.group "+A1".toList (.plain "A2".toList) (.plain []))))) _).mp
    (by decide +kernel)

end Worksheet
