import Mathlib
import Worksheet.Proofs.Reference.Cut
import Worksheet.Proofs.Reference.Word

/-!
# Resolving the parts of a text

A text that is cut at a parenthesis or a quote resolves part by part. What a part resolves to
depends on its place only in whether it lies in a literal, which names reach back, whether a word
may begin, and where text is read, so what stands in a pair of parentheses resolves as it would
alone, unless the arguments there are read as text.
-/

set_option autoImplicit false

namespace Worksheet

variable {grid : Grid} {settings : Settings} {c : Char} {text rest resolved : List Char}

def resolveFrom (grid : Grid) (settings : Settings) (place : Place) (text : List Char) :
    Except FormulaError (List Char) :=
  resolvePieces grid settings place (Piece.ofCharsAfter place.behind.head? text)

theorem Piece.opensCall_cons (piece : Piece) (first second : List Piece) :
    Piece.opensCall (piece :: first) = Piece.opensCall (piece :: second) := by
  cases piece with
  | plain c => by_cases opening : c = '(' <;> simp [Piece.opensCall, opening]
  | range token => rfl
  | cell token => rfl

theorem resolvePiece_congr (place : Place) (piece : Piece) {first second : List Piece}
    (lookahead : Piece.opensCall first = Piece.opensCall second) :
    resolvePiece grid settings place piece first =
      resolvePiece grid settings place piece second := by
  unfold resolvePiece
  rw [lookahead]

/-- A single character is cut off with everything in front of it. -/
theorem resolvePieces_cut (place : Place) (pieces later : List Piece) (c : Char) :
    resolvePieces grid settings place (pieces ++ .plain c :: later) = do
      let front ← resolvePieces grid settings place (pieces ++ [.plain c])
      let back ← resolvePieces grid settings
        ((pieces.flatMap Piece.chars ++ [c]).foldl Place.step place) later
      return front ++ back := by
  induction pieces generalizing place with
  | nil =>
      simp only [List.nil_append, resolvePieces, resolvePiece_plain, Outcome.ok_bind]
      rfl
  | cons piece pieces ih =>
      have lookahead : Piece.opensCall (pieces ++ .plain c :: later) =
          Piece.opensCall (pieces ++ [.plain c]) := by
        cases pieces with
        | nil => exact Piece.opensCall_cons _ _ _
        | cons second more => exact Piece.opensCall_cons _ _ _
      simp only [List.cons_append, resolvePieces, resolvePiece_congr place piece lookahead, ih,
        List.flatMap_cons, List.foldl_append]
      cases resolvePiece grid settings place piece (pieces ++ [.plain c]) with
      | error error => rfl
      | ok literal =>
          simp only [Outcome.ok_bind]
          cases resolvePieces grid settings (piece.chars.foldl Place.step place)
            (pieces ++ [.plain c]) with
          | error error => rfl
          | ok front =>
              simp only [Outcome.ok_bind, Outcome.pure_eq]
              cases resolvePieces grid settings
                ([c].foldl Place.step ((pieces.flatMap Piece.chars).foldl Place.step
                  (piece.chars.foldl Place.step place))) later <;> simp

/-- The last piece resolves by itself, unless it opens a call. -/
theorem resolvePieces_last (place : Place) (pieces : List Piece) {piece : Piece}
    (notOpening : Piece.opensCall [piece] = false) :
    resolvePieces grid settings place (pieces ++ [piece]) = do
      let front ← resolvePieces grid settings place pieces
      let literal ← resolvePiece grid settings
        ((pieces.flatMap Piece.chars).foldl Place.step place) piece []
      return front ++ literal := by
  induction pieces generalizing place with
  | nil =>
      have last : ([] : List Piece).flatMap Piece.chars = [] := rfl
      simp only [List.nil_append, resolvePieces, Outcome.ok_bind, last, List.foldl_nil]
      cases resolvePiece grid settings place piece [] <;> simp
  | cons first pieces ih =>
      have lookahead : Piece.opensCall (pieces ++ [piece]) = Piece.opensCall pieces := by
        cases pieces with
        | nil => exact notOpening
        | cons second more => exact Piece.opensCall_cons _ _ _
      simp only [List.cons_append, resolvePieces, resolvePiece_congr place first lookahead, ih,
        List.flatMap_cons, List.foldl_append]
      cases resolvePiece grid settings place first pieces with
      | error error => rfl
      | ok start =>
          simp only [Outcome.ok_bind]
          cases resolvePieces grid settings (first.chars.foldl Place.step place) pieces with
          | error error => rfl
          | ok front =>
              simp only [Outcome.ok_bind, Outcome.pure_eq]
              cases resolvePiece grid settings ((pieces.flatMap Piece.chars).foldl Place.step
                (first.chars.foldl Place.step place)) piece [] <;> simp

theorem resolveFrom_cut (cuts : Piece.Cuts c) (place : Place) (text rest : List Char) :
    resolveFrom grid settings place (text ++ c :: rest) = do
      let front ← resolveFrom grid settings place (text ++ [c])
      let back ← resolveFrom grid settings ((text ++ [c]).foldl Place.step place) rest
      return front ++ back := by
  have whole := Piece.flatMap_chars_ofCharsAfter place.behind.head? text
  have behind : ((text ++ [c]).foldl Place.step place).behind.head? = some c := by
    rw [Place.behind_foldl]
    simp
  unfold resolveFrom
  rw [Piece.ofCharsAfter_cut cuts, resolvePieces_cut, whole, Piece.ofCharsAfter_cut cuts,
    Piece.ofCharsAfter_nil, behind]

theorem exists_of_resolveFrom_cut (cuts : Piece.Cuts c) {place : Place}
    (read : resolveFrom grid settings place (text ++ c :: rest) = .ok resolved) :
    ∃ front back, resolved = front ++ back ∧
      resolveFrom grid settings place (text ++ [c]) = .ok front ∧
      resolveFrom grid settings ((text ++ [c]).foldl Place.step place) rest = .ok back := by
  rw [resolveFrom_cut cuts] at read
  obtain ⟨front, frontRead, read⟩ := Outcome.bind_eq_ok.mp read
  obtain ⟨back, backRead, read⟩ := Outcome.bind_eq_ok.mp read
  exact ⟨front, back, (Except.ok.inj read).symm, frontRead, backRead⟩

theorem resolveFrom_last (cuts : Piece.Cuts c) (notOpening : c ≠ '(') (place : Place)
    (text : List Char) :
    resolveFrom grid settings place (text ++ [c]) =
      (· ++ [c]) <$> resolveFrom grid settings place text := by
  unfold resolveFrom
  rw [Piece.ofCharsAfter_cut cuts, Piece.ofCharsAfter_nil,
    resolvePieces_last _ _ (by simp [Piece.opensCall, notOpening])]
  simp only [resolvePiece_plain, Outcome.ok_bind]
  cases resolvePieces grid settings place (Piece.ofCharsAfter place.behind.head? text) <;> rfl

theorem exists_of_resolveFrom_before (cuts : Piece.Cuts c) (notOpening : c ≠ '(') {place : Place}
    (read : resolveFrom grid settings place (text ++ c :: rest) = .ok resolved) :
    ∃ front back, resolved = front ++ back ∧ resolveFrom grid settings place text = .ok front ∧
      resolveFrom grid settings (text.foldl Place.step place) (c :: rest) = .ok back := by
  obtain ⟨start, back, rfl, startRead, backRead⟩ := exists_of_resolveFrom_cut cuts read
  rw [resolveFrom_last cuts notOpening] at startRead
  obtain ⟨front, frontRead, rfl⟩ := Outcome.map_eq_ok.mp startRead
  refine ⟨front, c :: back, by simp, frontRead, ?_⟩
  unfold resolveFrom at backRead ⊢
  rw [Piece.ofCharsAfter_of_none fun _ => Piece.reference?_eq_none cuts.notAlphanum rest,
    resolvePieces, resolvePiece_plain, Outcome.ok_bind]
  rw [Place.behind_foldl] at backRead
  simp only [List.reverse_append, List.reverse_singleton, List.cons_append, List.head?_cons,
    List.foldl_append] at backRead
  rw [Piece.chars, backRead]
  rfl

theorem exists_of_resolvePieces_opening (previous : Option Char) (text : List Char) :
    ∀ (place : Place) (behind resolved : List Char),
      resolvePieces grid settings place (Piece.ofCharsAfter previous text ++ [.plain '(']) =
        .ok resolved →
      SameNames place.behind behind (text ++ ['(']) →
      ∃ front, resolved = front ++ ['('] ∧
        nameBehind? (front.reverse ++ behind) = nameBehind? (text.reverse ++ place.behind) := by
  induction previous, text using Piece.ofCharsAfter_induction with
  | nil previous =>
      intro place behind resolved read same
      rw [List.nil_append, resolvePieces, resolvePiece_plain] at read
      cases read
      exact ⟨[], rfl, (same.nameBehind?_eq rfl).symm⟩
  | reference previous text piece rest _ _ starts ih =>
      intro place behind resolved read same
      obtain ⟨literal, pieceRead, others, restRead, rfl⟩ := resolvePieces_cons_eq_ok_iff.mp read
      have starts' : Piece.Starts (text ++ ['(']) piece (rest ++ ['(']) := by
        refine ⟨⟨by rw [starts.text_eq, List.append_assoc], starts.begins, starts.members⟩, ?_⟩
        cases rest with
        | nil => exact (Piece.cuts_of_mem (by decide)).edge
        | cons d more => exact starts.ends
      -- the parenthesis decides whether a call opens only where nothing stands in front of it
      have lookahead (opens : (rest ++ ['(']).head? = some '(') :
          Piece.opensCall (Piece.ofCharsAfter piece.chars.getLast? rest ++ [.plain '(']) = true := by
        cases rest with
        | nil =>
            rw [Piece.ofCharsAfter_nil]
            rfl
        | cons d more =>
            have opening := (Piece.opensCall_ofCharsAfter piece.chars.getLast? (d :: more)).mpr opens
            cases pieces : Piece.ofCharsAfter piece.chars.getLast? (d :: more) with
            | nil => rfl
            | cons first others =>
                rw [pieces, Piece.opensCall_cons first others []] at opening
                rw [List.cons_append, Piece.opensCall_cons first _ []]
                exact opening
      have behindSame := same.reference starts' lookahead pieceRead
      rw [← Place.behind_foldl] at behindSame
      obtain ⟨front, rfl, names⟩ := ih _ _ _ restRead behindSame
      refine ⟨literal ++ front, by simp, ?_⟩
      rw [Place.behind_foldl] at names
      rw [starts.text_eq]
      simpa using names
  | plain previous d rest _ ih =>
      intro place behind resolved read same
      obtain ⟨others, restRead, rfl⟩ := resolvePieces_plain_eq_ok_iff.mp read
      obtain ⟨front, rfl, names⟩ := ih (place.step d) (d :: behind) others restRead same.cons
      refine ⟨d :: front, rfl, ?_⟩
      simpa [Place.step] using names

/-! ## Places -/

theorem Place.readsText_congr {first second : Place}
    (top : first.textLevels.getD 0 false = second.textLevels.getD 0 false) :
    first.readsText = second.readsText := by
  simp only [List.getD_eq_getElem?_getD, ← List.head?_eq_getElem?] at top
  simpa only [Place.readsText, List.headD_eq_head?_getD] using top

theorem Place.opensText_congr {first second : Place}
    (names : nameBehind? first.behind = nameBehind? second.behind)
    (top : first.textLevels.getD 0 false = second.textLevels.getD 0 false) :
    first.opensText = second.opensText := by
  rw [Place.opensText, Place.opensText, names, Place.readsText_congr top]

/-- Two places at which every text resolves in the same way. Beyond the open parentheses no text
is read. -/
structure Place.Alike (first second : Place) : Prop where
  inside : first.inside = second.inside
  names : ∀ near, nameBehind? (near ++ first.behind) = nameBehind? (near ++ second.behind)
  edge : wordEdge first.behind.head? = wordEdge second.behind.head?
  levels : ∀ level, first.textLevels.getD level false = second.textLevels.getD level false

namespace Place.Alike

variable {first second : Place} (alike : first.Alike second)
include alike

theorem readsText : first.readsText = second.readsText :=
  Place.readsText_congr (alike.levels 0)

theorem opensText : first.opensText = second.opensText :=
  Place.opensText_congr (alike.names []) (alike.levels 0)

theorem step (c : Char) : (first.step c).Alike (second.step c) where
  inside := by simp only [Place.step, alike.inside]
  names near := by simpa [Place.step] using alike.names (near ++ [c])
  edge := rfl
  levels level := by
    simp only [Place.step, alike.inside]
    split
    · exact alike.levels level
    · split
      · cases level with
        | zero => simpa using alike.opensText
        | succ level => simpa using alike.levels level
      · split
        · simpa [List.getD_eq_getElem?_getD, List.getElem?_tail] using alike.levels (level + 1)
        · exact alike.levels level

theorem foldl (text : List Char) :
    (text.foldl Place.step first).Alike (text.foldl Place.step second) := by
  induction text generalizing first second with
  | nil => exact alike
  | cons c rest ih => exact ih (alike.step c)

theorem resolvePieces_eq (pieces : List Piece) :
    resolvePieces grid settings first pieces = resolvePieces grid settings second pieces := by
  induction pieces generalizing first second with
  | nil => rfl
  | cons piece rest ih =>
      have same : resolvePiece grid settings first piece rest =
          resolvePiece grid settings second piece rest := by
        unfold resolvePiece
        rw [alike.inside, alike.readsText]
      rw [resolvePieces, resolvePieces, same, ih (alike.foldl piece.chars)]

theorem resolveFrom_eq (text : List Char) :
    resolveFrom grid settings first text = resolveFrom grid settings second text := by
  rw [resolveFrom, resolveFrom, Piece.ofCharsAfter_congr alike.edge, alike.resolvePieces_eq]

end Place.Alike

theorem Place.levels_of_step {place : Place} {c : Char} {depth depth' : Nat} {inside' : Bool}
    (step : Script.CheckStep c depth place.inside depth' inside') :
    (place.step c).inside = inside' ∧
      (place.step c).textLevels =
        if depth < depth' then place.opensText :: place.textLevels
        else if depth' < depth then place.textLevels.tail
        else place.textLevels := by
  generalize same : place.inside = inside at step
  cases step with
  | quote => simp [Place.step, same]
  | within _ notQuote => simp [Place.step, same, notQuote]
  | opening => simp [Place.step, same]
  | closing => simp [Place.step, same]
  | without _ notQuote notOpening notClosing =>
      simp [Place.step, same, notQuote, notOpening, notClosing]

theorem Place.exists_near_of_step {place : Place} {c : Char} {depth depth' : Nat} {inside' : Bool}
    (step : Script.CheckStep c depth place.inside depth' inside') {near far : List Bool}
    (levels : place.textLevels = near ++ far) (length : near.length = depth) :
    ∃ near', (place.step c).textLevels = near' ++ far ∧ near'.length = depth' := by
  have moves := (Place.levels_of_step step).2
  generalize place.inside = inside at step
  cases step with
  | quote => exact ⟨near, by simpa [levels] using moves, length⟩
  | within => exact ⟨near, by simpa [levels] using moves, length⟩
  | opening => exact ⟨place.opensText :: near, by simpa [levels] using moves, by simp [length]⟩
  | closing =>
      obtain ⟨level, more, rfl⟩ := List.exists_cons_of_length_eq_add_one length
      exact ⟨more, by simpa [levels] using moves, by simpa using length⟩
  | without => exact ⟨near, by simpa [levels] using moves, length⟩

theorem Place.textLevels_foldl {depth : Nat} {text : List Char} {place : Place}
    (checked : Script.check depth place.inside text = .ok ()) {near far : List Bool}
    (levels : place.textLevels = near ++ far) (length : near.length = depth) :
    (text.foldl Place.step place).textLevels = far := by
  induction text generalizing depth place near with
  | nil =>
      obtain rfl := (Script.check_nil checked).1
      obtain rfl := List.eq_nil_of_length_eq_zero length
      exact levels
  | cons c rest ih =>
      obtain ⟨depth', inside', step, next⟩ := Script.exists_step_of_check checked
      obtain ⟨near', levels', length'⟩ := Place.exists_near_of_step step levels length
      rw [← (Place.levels_of_step step).1] at next
      exact ih next levels' length'

/-! ## Groups -/

def Place.opened (readsText : Bool) : Place where
  behind := ['(']
  textLevels := [readsText]

def opensText (front : List Char) : Bool :=
  (Script.callName? front).any fun name => capitals name = textFunction

theorem Place.foldl_matched {front : List Char} (checked : Script.check 0 false front = .ok ()) :
    (front.foldl Place.step {}).inside = false ∧ (front.foldl Place.step {}).textLevels = [] := by
  constructor
  · rw [Place.inside_foldl]
    exact Script.endsQuoted_of_check checked
  · exact @Place.textLevels_foldl 0 front {} checked [] [] rfl rfl

theorem Place.alike_of_closed {front : List Char} (checked : Script.check 0 false front = .ok ())
    (stops : StopsName front.reverse) (edge : wordEdge front.getLast? = true) :
    (front.foldl Place.step {}).Alike {} where
  inside := (Place.foldl_matched checked).1
  names near := by
    rw [Place.behind_foldl, List.append_nil, List.append_nil, nameBehind?_append_of_stops near stops]
  edge := by
    rw [Place.behind_foldl, List.append_nil, List.head?_reverse, edge]
    rfl
  levels level := by rw [(Place.foldl_matched checked).2]

theorem Place.alike_opened {front : List Char} (checked : Script.check 0 false front = .ok ()) :
    ((front ++ ['(']).foldl Place.step {}).Alike (.opened (Worksheet.opensText front)) := by
  obtain ⟨outside, closed⟩ := Place.foldl_matched checked
  have opens : (front.foldl Place.step {}).opensText = Worksheet.opensText front := by
    rw [Place.opensText, Worksheet.opensText, Place.behind_foldl, List.append_nil, Script.callName?]
    cases nameBehind? front.reverse with
    | none => simp [Place.readsText, closed]
    | some name => rfl
  have step : (front ++ ['(']).foldl Place.step {} = (front.foldl Place.step {}).step '(' := by
    rw [List.foldl_append]
    rfl
  rw [step]
  refine ⟨by simp [Place.step, outside, Place.opened], fun near => ?_, rfl, fun level => ?_⟩
  · have shared (behind : List Char) : nameBehind? (near ++ '(' :: behind) = nameBehind? near :=
      nameBehind?_append_of_stops near (stopsName_opening behind)
    simp [Place.step, Place.opened, shared]
  · simp [Place.step, Place.opened, outside, closed, opens]

theorem Place.alike_alone : (Place.opened false).Alike {} := by
  refine ⟨rfl, fun near => ?_, rfl, fun level => ?_⟩
  · have shared : nameBehind? (near ++ ['(']) = nameBehind? near :=
      nameBehind?_append_of_stops near (stopsName_opening [])
    simpa [Place.opened] using shared
  · cases level <;> rfl

/-- What stands in front of a parenthesis keeps its names and its check, wherever it stands outside
literals with no name behind it. -/
theorem exists_of_resolveFrom_opening {place : Place} (outside : place.inside = false)
    (stops : StopsName place.behind) {front opening : List Char}
    (checkedFront : Script.check 0 false front = .ok ())
    (read : resolveFrom grid settings place (front ++ ['(']) = .ok opening) :
    ∃ front', opening = front' ++ ['('] ∧ Script.callName? front' = Script.callName? front ∧
      callNames front' = callNames front ∧ Script.check 0 false front' = .ok () := by
  have openingCuts : Piece.Cuts '(' := Piece.cuts_of_mem (by decide)
  have shared (near : List Char) : nameBehind? (near ++ place.behind) = nameBehind? (near ++ []) := by
    rw [nameBehind?_append_of_stops near stops, List.append_nil]
  have unseen (text : List Char) : nameBehind? (text.reverse ++ place.behind) = Script.callName? text :=
    nameBehind?_append_of_stops text.reverse stops
  rw [resolveFrom, Piece.ofCharsAfter_cut openingCuts, Piece.ofCharsAfter_nil] at read
  obtain ⟨front', rfl, names⟩ :=
    exists_of_resolvePieces_opening _ front place [] opening read (.inl shared)
  have sameName : Script.callName? front' = Script.callName? front := by
    rw [← unseen front, ← names, List.append_nil]
    rfl
  -- with a parenthesis that closes behind it the front passes the check
  have bare : resolvePieces grid settings place
      (Piece.ofCharsAfter place.behind.head? (front ++ '(' :: [')'])) =
        .ok (front' ++ ['('] ++ [')']) := by
    have last : Piece.ofCharsAfter (some '(') [')'] = [.plain ')'] := by
      rw [Piece.ofCharsAfter_of_none fun _ => Piece.reference?_eq_none (by decide) [],
        Piece.ofCharsAfter_nil]
    rw [Piece.ofCharsAfter_cut openingCuts, last, resolvePieces_cut, read, Outcome.ok_bind,
      resolvePieces, resolvePiece_plain]
    rfl
  obtain ⟨keepsNames, keepsCheck⟩ := resolvePieces_keeps _ _ place [] _ rfl bare (.inl shared)
  rw [outside, List.append_assoc, List.singleton_append] at keepsNames keepsCheck
  have checked : Script.check 0 false front' = .ok () := by
    have idle (depth : Nat) (inside : Bool) :
        Script.check depth inside ['(', ')'] = Script.check depth inside [] := by
      cases inside <;> simp [Script.check]
    have same := keepsCheck 0
    rwa [Script.check_append_of_idle idle, Script.check_append_of_idle idle, checkedFront] at same
  refine ⟨front', rfl, sameName, ?_, checked⟩
  rw [callNamesFrom_append, callNamesFrom_append, Script.endsQuoted_of_check checked,
    Script.endsQuoted_of_check checkedFront, callNamesFrom_of_stops stops, callNamesFrom_opening,
    callNamesFrom_opening, callNamesFrom_closing, callNamesFrom_closing, unseen, sameName.symm,
    List.append_nil] at keepsNames
  exact List.append_cancel_right keepsNames

/-- A group resolves part by part, wherever it stands outside literals with no name behind it: what
stands in front of it keeps its names and its check. -/
theorem exists_of_resolveFrom_group {place : Place} (outside : place.inside = false)
    (stops : StopsName place.behind) {front text back resolved : List Char}
    (checkedFront : Script.check 0 false front = .ok ())
    (read : resolveFrom grid settings place (front ++ '(' :: (text ++ ')' :: back)) = .ok resolved) :
    ∃ front' text' back', resolved = front' ++ '(' :: (text' ++ ')' :: back') ∧
      Script.callName? front' = Script.callName? front ∧ callNames front' = callNames front ∧
      Script.check 0 false front' = .ok () ∧
      resolveFrom grid settings ((front ++ ['(']).foldl Place.step place) text = .ok text' ∧
      resolveFrom grid settings ((front ++ '(' :: (text ++ [')'])).foldl Place.step place) back =
        .ok back' ∧
      resolveFrom grid settings place (front ++ '(' :: (text ++ [')'])) =
        .ok (front' ++ '(' :: (text' ++ [')'])) := by
  have openingCuts : Piece.Cuts '(' := Piece.cuts_of_mem (by decide)
  have closingCuts : Piece.Cuts ')' := Piece.cuts_of_mem (by decide)
  rw [show front ++ '(' :: (text ++ ')' :: back) = (front ++ '(' :: text) ++ ')' :: back by simp] at read
  obtain ⟨start, back', rfl, startRead, backRead⟩ := exists_of_resolveFrom_cut closingCuts read
  have through : (front ++ '(' :: text) ++ [')'] = front ++ '(' :: (text ++ [')']) := by simp
  rw [through] at startRead backRead
  obtain ⟨opening, inner, rfl, openingRead, innerRead⟩ :=
    exists_of_resolveFrom_cut openingCuts startRead
  rw [resolveFrom_last closingCuts (by decide)] at innerRead
  obtain ⟨text', textRead, rfl⟩ := Outcome.map_eq_ok.mp innerRead
  obtain ⟨front', rfl, sameName, sameNames, checked⟩ :=
    exists_of_resolveFrom_opening outside stops checkedFront openingRead
  refine ⟨front', text', back', by simp, sameName, sameNames, checked, textRead, backRead, ?_⟩
  rw [show front' ++ '(' :: (text' ++ [')']) = front' ++ ['('] ++ (text' ++ [')']) by simp]
  exact startRead

/-- A group among matched texts resolves part by part: what stands in front of it keeps its name,
and what stands behind it resolves as it would alone. -/
theorem exists_of_resolve_group {front text back resolved : List Char}
    (checkedFront : Script.check 0 false front = .ok ())
    (checkedText : Script.check 0 false text = .ok ())
    (read : resolve grid settings (front ++ '(' :: (text ++ ')' :: back)) = .ok resolved) :
    ∃ front' text' back', resolved = front' ++ '(' :: (text' ++ ')' :: back') ∧
      Script.callName? front' = Script.callName? front ∧
      Script.check 0 false front' = .ok () ∧ Script.check 0 false text' = .ok () ∧
      resolveFrom grid settings (.opened (opensText front)) text = .ok text' ∧
      resolve grid settings back = .ok back' ∧
      resolve grid settings (front ++ '(' :: (text ++ [')'])) =
        .ok (front' ++ '(' :: (text' ++ [')'])) := by
  obtain ⟨front', text', back', rfl, sameName, _, checkedFront', textRead, backRead,
    groupRead⟩ :=
    @exists_of_resolveFrom_group grid settings {} rfl stopsName_nil front text back resolved
      checkedFront read
  rw [(Place.alike_opened checkedFront).resolveFrom_eq] at textRead
  have textKept := (resolvePieces_keeps (some '(') text (.opened (opensText front)) ['('] text' rfl
    textRead (.inl fun _ => rfl)).2 0
  have checked : Script.check 0 false (front ++ '(' :: (text ++ [')'])) = .ok () :=
    Script.check_group checkedFront checkedText []
  have ending : front ++ '(' :: (text ++ [')']) = (front ++ '(' :: text) ++ [')'] := by simp
  have stops : StopsName (front ++ '(' :: (text ++ [')'])).reverse := by
    rw [ending, List.reverse_append]
    exact stopsName_closing _
  have edge : wordEdge (front ++ '(' :: (text ++ [')'])).getLast? = true := by
    rw [ending, List.getLast?_concat]
    rfl
  rw [(Place.alike_of_closed checked stops edge).resolveFrom_eq] at backRead
  exact ⟨front', text', back', rfl, sameName, checkedFront', textKept.trans checkedText, textRead,
    backRead, groupRead⟩

/-! ## Operands -/

/-- The name of a call resolves to itself, also where it could be a reference. -/
theorem resolves_callName {name rest : List Char} (members : ∀ c ∈ name, isNameChar c = true)
    (place : Place) :
    Resolves grid settings ('(' :: rest) place name name (name.foldl Place.step place) := by
  have opening (previous : Option Char) :
      Piece.ofCharsAfter previous ('(' :: rest) =
        .plain '(' :: Piece.ofCharsAfter (some '(') rest :=
    Piece.ofCharsAfter_of_none fun _ => Piece.reference?_eq_none (by decide) rest
  have pieces (previous : Option Char) (later : List Piece) :
      resolvePieces grid settings place (Piece.ofCharsAfter previous name ++ .plain '(' :: later) =
        (name ++ ·) <$> resolvePieces grid settings (name.foldl Place.step place)
          (.plain '(' :: later) := by
    induction previous, name using Piece.ofCharsAfter_induction generalizing place with
    | nil previous => simp
    | reference previous text piece behind _ _ starts ih =>
        -- a word ends behind the reference, and the whole name is one
        obtain rfl : behind = [] := by
          cases behind with
          | nil => rfl
          | cons d more =>
              have inName := members d (starts.text_eq ▸ by simp)
              rw [Piece.isNameChar_of_edge starts.ends d rfl] at inName
              cases inName
        obtain rfl : text = piece.chars := by rw [starts.text_eq, List.append_nil]
        have itself : resolvePiece grid settings place piece (.plain '(' :: later) =
            .ok piece.chars := by
          simp [resolvePiece, Piece.opensCall]
        rw [Piece.ofCharsAfter_nil, List.singleton_append, resolvePieces, itself, Outcome.ok_bind]
        cases resolvePieces grid settings (piece.chars.foldl Place.step place)
          (.plain '(' :: later) <;> rfl
    | plain previous d behind _ ih =>
        have tail := ih (fun c member => members c (List.mem_cons_of_mem d member)) (place.step d)
        rw [List.cons_append, resolvePieces, resolvePiece_plain, Outcome.ok_bind, Piece.chars,
          List.foldl_cons, List.foldl_nil, tail, List.foldl_cons]
        cases resolvePieces grid settings (behind.foldl Place.step (place.step d))
          (.plain '(' :: later) <;> rfl
  unfold Resolves
  rw [Piece.ofCharsAfter_cut (Piece.cuts_of_mem (by decide)), pieces, opening]

theorem resolve_call_eq {name : List Char} (named : Script.callName? name = some name)
    (inner : List Char) :
    resolve grid settings (name ++ '(' :: (inner ++ [')'])) =
      (fun inner' => name ++ '(' :: (inner' ++ [')'])) <$>
        resolveFrom grid settings (.opened (opensText name)) inner := by
  have members : ∀ c ∈ name, isNameChar c = true := fun c member => isNameChar_of_mem_name named member
  have nameRead : Resolves grid settings ('(' :: (inner ++ [')'])) {} name name
      (name.foldl Place.step {}) := resolves_callName members {}
  have opening : Resolves grid settings (inner ++ [')']) (name.foldl Place.step {}) ['('] ['(']
      ((name.foldl Place.step {}).step '(') :=
    resolves_char _ (Piece.reference?_eq_none (by decide) _)
  have checked : Script.check 0 false name = .ok () :=
    Script.check_of_plain (isPlain_of_nameChars members)
  have alike := Place.alike_opened checked
  rw [List.foldl_append, List.foldl_cons, List.foldl_nil] at alike
  have arguments : resolveFrom grid settings ((name.foldl Place.step {}).step '(') (inner ++ [')']) =
      (· ++ [')']) <$> resolveFrom grid settings (.opened (opensText name)) inner := by
    rw [resolveFrom_last (Piece.cuts_of_mem (by decide)) (by decide), alike.resolveFrom_eq]
  have whole := @Resolves.append _ _ _ _ _ _ name ['('] name ['('] nameRead opening
  unfold Resolves at whole
  rw [List.append_assoc, List.singleton_append] at whole
  calc resolve grid settings (name ++ '(' :: (inner ++ [')'])) =
      (name ++ ['('] ++ ·) <$> resolveFrom grid settings ((name.foldl Place.step {}).step '(')
        (inner ++ [')']) := whole
    _ = _ := by
      rw [arguments]
      cases resolveFrom grid settings (.opened (opensText name)) inner <;> simp

theorem resolve_call {name inner inner' : List Char} (named : Script.callName? name = some name)
    (read : resolveFrom grid settings (.opened (opensText name)) inner = .ok inner') :
    resolve grid settings (name ++ '(' :: (inner ++ [')'])) =
      .ok (name ++ '(' :: (inner' ++ [')'])) := by
  rw [resolve_call_eq named, read]
  rfl

/-- In a text whose characters outside literals are all quotes nothing resolves. -/
theorem resolvePieces_quoted (previous : Option Char) (text : List Char) :
    ∀ place : Place,
      (∀ before c after, text = before ++ c :: after → endsQuoted place.inside before = false →
        c = '"') →
      resolvePieces grid settings place (Piece.ofCharsAfter previous text) = .ok text := by
  induction previous, text using Piece.ofCharsAfter_induction with
  | nil previous => exact fun _ _ => rfl
  | reference previous text piece rest _ _ starts ih =>
      intro place quoted
      obtain ⟨⟨rfl, ⟨first, more, begins, alphanumeric⟩, members⟩, _⟩ := starts
      have plain : IsPlain piece.chars := fun c member => Piece.isReferenceChar_ne (members c member)
      have inside : place.inside = true := by
        by_contra outside
        obtain rfl := quoted [] first (more ++ rest) (by rw [begins]; rfl)
          (Bool.eq_false_iff.mpr outside)
        revert alphanumeric
        decide
      have itself : resolvePiece grid settings place piece
          (Piece.ofCharsAfter piece.chars.getLast? rest) = .ok piece.chars := by
        simp [resolvePiece, inside]
      have others := ih (piece.chars.foldl Place.step place) fun before c after same closed => by
        refine quoted (piece.chars ++ before) c after (by rw [same, List.append_assoc]) ?_
        rw [endsQuoted_append]
        rwa [Place.inside_foldl] at closed
      rw [resolvePieces, itself, Outcome.ok_bind, others]
      rfl
  | plain previous c rest _ ih =>
      intro place quoted
      have others := ih (place.step c) fun before d after same closed =>
        quoted (c :: before) d after (by rw [same]; rfl) closed
      rw [resolvePieces, resolvePiece_plain, Outcome.ok_bind, Piece.chars, List.foldl_cons,
        List.foldl_nil, others]
      rfl

theorem eq_quote_of_mem_doubleQuotes {content : List Char} {c : Char} :
    ∀ {before after : List Char}, doubleQuotes content ++ ['"'] = before ++ c :: after →
      endsQuoted true before = false → c = '"' := by
  induction content with
  | nil =>
      intro before after same closed
      cases before with
      | nil => cases closed
      | cons d more => simp [doubleQuotes] at same
  | cons d content ih =>
      intro before after same closed
      cases before with
      | nil => cases closed
      | cons e more =>
          by_cases isQuote : d = '"'
          · simp only [doubleQuotes, if_pos isQuote, List.cons_append, List.cons.injEq] at same
            obtain ⟨rfl, same⟩ := same
            cases more with
            | nil => exact (List.cons.inj same).1.symm
            | cons e more =>
                obtain ⟨rfl, tail⟩ := List.cons.inj same
                exact ih tail (by simpa [endsQuoted] using closed)
          · simp only [doubleQuotes, if_neg isQuote, List.cons_append, List.cons.injEq] at same
            obtain ⟨rfl, same⟩ := same
            exact ih same (by simpa [endsQuoted, isQuote] using closed)

theorem eq_quote_of_mem_quote {content before after : List Char} {c : Char}
    (same : quote content = before ++ c :: after) (closed : endsQuoted false before = false) :
    c = '"' := by
  cases before with
  | nil => exact (List.cons.inj same).1.symm
  | cons d more =>
      obtain ⟨rfl, tail⟩ := List.cons.inj same
      exact eq_quote_of_mem_doubleQuotes tail (by simpa [endsQuoted] using closed)

theorem resolves_quote (content rest : List Char) {place : Place} (outside : place.inside = false) :
    Resolves grid settings rest place (quote content) (quote content)
      ((quote content).foldl Place.step place) := by
  have cuts : Piece.Cuts '"' := Piece.cuts_of_mem (by decide)
  have split (rest : List Char) :
      quote content ++ rest = ('"' :: doubleQuotes content) ++ '"' :: rest := by simp [quote]
  have whole := @resolvePieces_quoted grid settings place.behind.head? (quote content) place
    fun before c after same closed => eq_quote_of_mem_quote same (outside ▸ closed)
  have chars := Piece.flatMap_chars_ofCharsAfter place.behind.head? ('"' :: doubleQuotes content)
  have last : ('"' :: doubleQuotes content) ++ ['"'] = quote content := rfl
  have behind : ((quote content).foldl Place.step place).behind.head? = some '"' := by
    rw [Place.behind_foldl, ← last]
    simp
  rw [← last, Piece.ofCharsAfter_cut cuts, Piece.ofCharsAfter_nil, last] at whole
  unfold Resolves
  rw [split, Piece.ofCharsAfter_cut cuts, resolvePieces_cut, whole, chars, last, behind,
    Outcome.ok_bind]
  cases resolvePieces grid settings ((quote content).foldl Place.step place)
    (Piece.ofCharsAfter (some '"') rest) <;> rfl

/-- In front of a cell no name ends, neither in the text nor in what it resolves to. -/
theorem nameless_of_resolvePieces_cell (previous : Option Char) (text : List Char) :
    ∀ (pieces : List Piece) (token : List Char) (place : Place) (behind resolved : List Char),
      Piece.ofCharsAfter previous text = pieces ++ [.cell token] → place.behind.head? = previous →
      resolvePieces grid settings place pieces = .ok resolved →
      SameNames place.behind behind text → nameBehind? (resolved.reverse ++ behind) = none := by
  induction previous, text using Piece.ofCharsAfter_induction with
  | nil previous =>
      intro pieces token place behind resolved same
      simp at same
  | reference previous text piece rest edge _ starts ih =>
      intro pieces token place behind resolved same head read names
      cases pieces with
      | nil =>
          -- a word begins with the cell, so no name goes up to it
          cases read
          exact names.nameless (head.symm ▸ edge) starts
      | cons first pieces =>
          obtain ⟨rfl, tail⟩ := List.cons.inj same
          obtain ⟨literal, pieceRead, others, othersRead, rfl⟩ :=
            resolvePieces_cons_eq_ok_iff.mp read
          have lookahead (opens : rest.head? = some '(') : Piece.opensCall pieces = true := by
            have opening := (Piece.opensCall_ofCharsAfter piece.chars.getLast? rest).mpr opens
            rw [tail] at opening
            cases pieces with
            | nil => cases opening
            | cons second more => exact (Piece.opensCall_cons second _ _).trans opening
          have behindNames := names.reference starts lookahead pieceRead
          rw [← Place.behind_foldl] at behindNames
          have nameless := ih pieces token _ _ others tail (starts.head?_behind place) othersRead
            behindNames
          rwa [List.reverse_append, List.append_assoc]
  | plain previous c rest _ ih =>
      intro pieces token place behind resolved same head read names
      cases pieces with
      | nil => cases (List.cons.inj same).1
      | cons first pieces =>
          obtain ⟨rfl, tail⟩ := List.cons.inj same
          obtain ⟨others, othersRead, rfl⟩ := resolvePieces_plain_eq_ok_iff.mp read
          have nameless := ih pieces token (place.step c) (c :: behind) others tail rfl othersRead
            names.cons
          simpa using nameless

theorem isReferenceChar_of_mem (previous : Option Char) (text : List Char) :
    ∀ piece ∈ Piece.ofCharsAfter previous text, (∀ c, piece ≠ .plain c) →
      ∀ c ∈ piece.chars, Piece.isReferenceChar c = true := by
  induction previous, text using Piece.ofCharsAfter_induction with
  | nil previous => simp
  | reference previous text first rest _ _ starts ih =>
      intro piece member
      rcases List.mem_cons.mp member with rfl | later
      · exact fun _ => starts.members
      · exact ih piece later
  | plain previous c rest _ ih =>
      intro piece member reference
      exact ih piece ((List.mem_cons.mp member).resolve_left (reference c)) reference

theorem exists_of_resolve_cell {front token resolved : List Char}
    (checked : Script.check 0 false front = .ok ())
    (pieces : Piece.ofChars (front ++ token) = Piece.ofChars front ++ [.cell token])
    (read : resolve grid settings (front ++ token) = .ok resolved) :
    ∃ front' literal, resolved = front' ++ literal ∧ resolve grid settings front = .ok front' ∧
      Script.callName? front' = none ∧ cellLiteral grid settings false token = .ok literal := by
  rw [resolve, pieces, resolvePieces_last _ _ rfl] at read
  obtain ⟨front', frontRead, read⟩ := Outcome.bind_eq_ok.mp read
  obtain ⟨literal, cellRead, read⟩ := Outcome.bind_eq_ok.mp read
  cases read
  refine ⟨front', literal, rfl, frontRead, ?_, ?_⟩
  · have nameless := nameless_of_resolvePieces_cell none (front ++ token) (Piece.ofChars front) token
      {} [] front' pieces rfl frontRead (.inl fun _ => rfl)
    rwa [List.append_nil] at nameless
  · obtain ⟨outside, closed⟩ := Place.foldl_matched checked
    rw [Piece.ofChars, Piece.flatMap_chars_ofCharsAfter] at cellRead
    simpa [resolvePiece, outside, Piece.opensCall, Place.readsText, closed] using cellRead

end Worksheet
