import Mathlib
import Worksheet.Proofs.Reference.Part
import Worksheet.Proofs.Script.Literal

/-!
# Resolving a list of arguments

A list of arguments whose parentheses and quotes match resolves argument by argument, and where no
text is read each argument resolves as it would alone. A literal belongs to one argument, so the
only references that change how many arguments there are are ranges of numbers among the arguments
themselves: one that has more than one number stands for as many arguments.
-/

set_option autoImplicit false

namespace Worksheet

variable {grid : Grid} {settings : Settings}

theorem Piece.cuts_comma : Piece.Cuts ',' :=
  ⟨by decide, by decide⟩

theorem resolve_comma {first : List Char} (checked : Script.check 0 false first = .ok ())
    (rest : List Char) :
    resolve grid settings (first ++ ',' :: rest) = do
      let first' ← resolve grid settings first
      let rest' ← resolve grid settings rest
      return first' ++ ',' :: rest' := by
  have closed : Script.check 0 false (first ++ [',']) = .ok () := by
    rw [Script.check_append checked]
    rfl
  have stops : StopsName (first ++ [',']).reverse := by
    rw [List.reverse_append]
    exact stopsName_cons (by decide) _
  have edge : wordEdge (first ++ [',']).getLast? = true := by
    rw [List.getLast?_concat]
    exact Piece.cuts_comma.edge
  have alone : resolveFrom grid settings ((first ++ [',']).foldl Place.step {}) rest =
      resolve grid settings rest := (Place.alike_of_closed closed stops edge).resolveFrom_eq rest
  change resolveFrom grid settings {} (first ++ ',' :: rest) = _
  rw [resolveFrom_cut Piece.cuts_comma, alone, resolveFrom_last Piece.cuts_comma (by decide)]
  change ((· ++ [',']) <$> resolve grid settings first >>= fun front =>
    resolve grid settings rest >>= fun back => pure (front ++ back)) = _
  cases resolve grid settings first with
  | error error => rfl
  | ok first' =>
      simp only [Functor.map, Except.map, Outcome.ok_bind, List.append_assoc, List.singleton_append]

/-- Two places at which every text that closes no more than so many parentheses resolves in the same
way. -/
structure Place.AlikeWithin (depth : Nat) (first second : Place) : Prop where
  inside : first.inside = second.inside
  names : ∀ near, nameBehind? (near ++ first.behind) = nameBehind? (near ++ second.behind)
  edge : wordEdge first.behind.head? = wordEdge second.behind.head?
  levels : ∀ level ≤ depth,
    first.textLevels.getD level false = second.textLevels.getD level false

namespace Place.AlikeWithin

variable {depth : Nat} {first second : Place}

theorem readsText (alike : first.AlikeWithin depth second) :
    first.readsText = second.readsText :=
  Place.readsText_congr (alike.levels 0 (Nat.zero_le depth))

theorem opensText (alike : first.AlikeWithin depth second) :
    first.opensText = second.opensText :=
  Place.opensText_congr (alike.names []) (alike.levels 0 (Nat.zero_le depth))

/-- One character of a text that passes the check keeps two places alike, as far as the rest of the
text reaches. -/
theorem step (alike : first.AlikeWithin depth second) {c : Char} {rest : List Char}
    (checked : Script.check depth first.inside (c :: rest) = .ok ()) :
    ∃ further, Script.check further (first.step c).inside rest = .ok () ∧
      (first.step c).AlikeWithin further (second.step c) := by
  obtain ⟨further, inside', moves, next⟩ := Script.exists_step_of_check checked
  have secondMoves := moves
  rw [alike.inside] at secondMoves
  obtain ⟨firstInside, firstLevels⟩ := Place.levels_of_step moves
  obtain ⟨secondInside, secondLevels⟩ := Place.levels_of_step secondMoves
  have names (near : List Char) : nameBehind? (near ++ (first.step c).behind) =
      nameBehind? (near ++ (second.step c).behind) := by
    simpa [Place.step] using alike.names (near ++ [c])
  refine ⟨further, firstInside ▸ next, firstInside.trans secondInside.symm, names, rfl, ?_⟩
  intro level within
  rw [firstLevels, secondLevels, alike.opensText]
  generalize first.inside = inside at moves
  cases moves with
  | opening =>
      cases level with
      | zero => simp
      | succ level => simpa using alike.levels level (Nat.le_of_succ_le_succ within)
  | closing =>
      have outer := alike.levels (level + 1) (Nat.succ_le_succ within)
      simpa [List.getD_eq_getElem?_getD, List.getElem?_tail] using outer
  | quote => simpa using alike.levels level within
  | within => simpa using alike.levels level within
  | without => simpa using alike.levels level within

theorem foldl (alike : first.AlikeWithin depth second) {text rest : List Char}
    (checked : Script.check depth first.inside (text ++ rest) = .ok ()) :
    ∃ further, Script.check further (text.foldl Place.step first).inside rest = .ok () ∧
      (text.foldl Place.step first).AlikeWithin further (text.foldl Place.step second) := by
  induction text generalizing depth first second with
  | nil => exact ⟨depth, checked, alike⟩
  | cons c text ih =>
      obtain ⟨further, stillChecked, stillAlike⟩ := alike.step checked
      exact ih stillAlike stillChecked

theorem resolvePieces_eq (previous : Option Char) (text : List Char) :
    ∀ (depth : Nat) (first second : Place), first.AlikeWithin depth second →
      Script.check depth first.inside text = .ok () →
      resolvePieces grid settings first (Piece.ofCharsAfter previous text) =
        resolvePieces grid settings second (Piece.ofCharsAfter previous text) := by
  have onward {depth : Nat} {first second : Place} (alike : first.AlikeWithin depth second)
      {piece : Piece} {rest : List Char} {others : List Piece}
      (checked : Script.check depth first.inside (piece.chars ++ rest) = .ok ())
      (same : ∀ (depth : Nat) (first second : Place), first.AlikeWithin depth second →
        Script.check depth first.inside rest = .ok () →
        resolvePieces grid settings first others = resolvePieces grid settings second others) :
      resolvePieces grid settings first (piece :: others) =
        resolvePieces grid settings second (piece :: others) := by
    obtain ⟨further, restChecked, restAlike⟩ := alike.foldl checked
    have here : resolvePiece grid settings first piece others =
        resolvePiece grid settings second piece others := by
      unfold resolvePiece
      rw [alike.inside, alike.readsText]
    rw [resolvePieces, resolvePieces, here, same _ _ _ restAlike restChecked]
  induction previous, text using Piece.ofCharsAfter_induction with
  | nil previous => exact fun _ _ _ _ _ => rfl
  | reference previous text piece rest _ _ starts ih =>
      intro depth first second alike checked
      rw [starts.text_eq] at checked
      exact onward alike checked ih
  | plain previous c rest _ ih =>
      intro depth first second alike checked
      exact @onward depth first second alike (.plain c) rest _ checked ih

theorem resolveFrom_eq (alike : first.AlikeWithin depth second) {text : List Char}
    (checked : Script.check depth first.inside text = .ok ()) :
    resolveFrom grid settings first text = resolveFrom grid settings second text := by
  rw [resolveFrom, resolveFrom, Piece.ofCharsAfter_congr alike.edge,
    resolvePieces_eq _ _ _ _ _ alike checked]

end Place.AlikeWithin

end Worksheet
