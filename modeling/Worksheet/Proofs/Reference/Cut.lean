import Mathlib
import Worksheet.Proofs.Reference.Piece

/-!
# Cutting a text between its references

No reference reaches beyond a character that stands in no reference and ends words. At such a
character a text can be cut: its pieces are the pieces in front of the cut, the character itself,
and the pieces behind it.
-/

set_option autoImplicit false

namespace Worksheet.Piece

structure Cuts (c : Char) : Prop where
  other : isReferenceChar c = false
  edge : wordEdge (some c) = true

theorem cuts_of_mem {c : Char} (symbol : c ∈ ['(', ')', '"', '.']) : Cuts c := by
  have all : ['(', ')', '"', '.'].all
      (fun c => isReferenceChar c = false ∧ wordEdge (some c) = true) = true := rfl
  obtain ⟨other, edge⟩ := of_decide_eq_true (List.all_eq_true.mp all c symbol)
  exact ⟨other, edge⟩

variable {c : Char} {rest : List Char}

theorem takeWhile_cut {member : Char → Bool} (other : member c = false) (text : List Char) :
    (text ++ c :: rest).takeWhile member = text.takeWhile member := by
  induction text with
  | nil => exact List.takeWhile_cons_of_neg (by simp [other])
  | cons d text ih => simp only [List.cons_append, List.takeWhile_cons, ih]

theorem dropWhile_cut {member : Char → Bool} (other : member c = false) (text : List Char) :
    (text ++ c :: rest).dropWhile member = text.dropWhile member ++ c :: rest := by
  induction text with
  | nil => exact List.dropWhile_cons_of_neg (by simp [other])
  | cons d text ih =>
      simp only [List.cons_append, List.dropWhile_cons, ih]
      split <;> rfl

def goesOn (rest : List Char) (shape : Option (List Char × List Char)) :
    Option (List Char × List Char) :=
  shape.map fun (taken, left) => (taken, left ++ rest)

theorem run?_cut {member : Char → Bool} (other : member c = false) (text : List Char) :
    run? member (text ++ c :: rest) = goesOn (c :: rest) (run? member text) := by
  rw [run?, run?, takeWhile_cut other, dropWhile_cut other]
  split <;> rfl

variable (cuts : Cuts c)
include cuts

theorem Cuts.notAlphanum : c.isAlphanum = false := by
  have other := cuts.other
  simp only [isReferenceChar, Bool.or_eq_false_iff] at other
  exact other.1.1

theorem Cuts.notAlpha : c.isAlpha = false := by
  have other := cuts.notAlphanum
  simp only [Char.isAlphanum, Bool.or_eq_false_iff] at other
  exact other.1

theorem Cuts.notDigit : c.isDigit = false := by
  have other := cuts.notAlphanum
  simp only [Char.isAlphanum, Bool.or_eq_false_iff] at other
  exact other.2

theorem Cuts.notBlank : isBlank c = false := by
  have other := cuts.other
  simp only [isReferenceChar, Bool.or_eq_false_iff] at other
  exact other.2

theorem Cuts.notColon : c ≠ ':' := by
  rintro rfl
  have other := cuts.other
  revert other
  decide

theorem cellShape?_cut (text : List Char) :
    cellShape? (text ++ c :: rest) = goesOn (c :: rest) (cellShape? text) := by
  rw [cellShape?, cellShape?, run?_cut cuts.notAlpha]
  cases run? Char.isAlpha text with
  | none => rfl
  | some found =>
      obtain ⟨letters, left⟩ := found
      simp only [goesOn, Option.map_some, Option.bind_eq_bind, Option.bind_some,
        run?_cut cuts.notDigit]
      cases run? Char.isDigit left <;> rfl

theorem spacedColon?_cut (text : List Char) :
    spacedColon? (text ++ c :: rest) = goesOn (c :: rest) (spacedColon? text) := by
  unfold spacedColon?
  rw [takeWhile_cut cuts.notBlank, dropWhile_cut cuts.notBlank]
  cases text.dropWhile isBlank with
  | nil =>
      simp only [List.nil_append]
      split
      · rename_i same
        exact absurd (List.cons.inj same).1 cuts.notColon
      · rfl
  | cons d more =>
      simp only [List.cons_append]
      split
      · rename_i same
        obtain ⟨rfl, rfl⟩ := List.cons.inj same
        rw [takeWhile_cut cuts.notBlank, dropWhile_cut cuts.notBlank]
        rfl
      · rename_i different
        split
        · rename_i same
          obtain ⟨rfl, -⟩ := List.cons.inj same
          exact absurd rfl (different _)
        · rfl

theorem cornersShape?_cut (text : List Char) :
    cornersShape? (text ++ c :: rest) = goesOn (c :: rest) (cornersShape? text) := by
  rw [cornersShape?, cornersShape?, cellShape?_cut cuts]
  cases cellShape? text with
  | none => rfl
  | some found =>
      obtain ⟨first, left⟩ := found
      simp only [goesOn, Option.map_some, Option.bind_eq_bind, Option.bind_some,
        spacedColon?_cut cuts]
      cases spacedColon? left with
      | none => rfl
      | some found =>
          obtain ⟨colon, left⟩ := found
          simp only [goesOn, Option.map_some, Option.bind_some, cellShape?_cut cuts]
          cases cellShape? left <;> rfl

theorem pairShape?_cut {member : Char → Bool} (other : member c = false) (text : List Char) :
    pairShape? member (text ++ c :: rest) = goesOn (c :: rest) (pairShape? member text) := by
  rw [pairShape?, pairShape?, run?_cut other]
  cases run? member text with
  | none => rfl
  | some found =>
      obtain ⟨first, left⟩ := found
      simp only [goesOn, Option.map_some, Option.bind_eq_bind, Option.bind_some]
      cases left with
      | nil => simp [cuts.notColon]
      | cons d more =>
          by_cases colon : d = ':'
          · subst colon
            simp only [List.cons_append, run?_cut other]
            cases run? member more <;> rfl
          · simp [colon]

theorem word?_cut (shape : Option (List Char × List Char)) :
    word? (goesOn (c :: rest) shape) = word? shape := by
  cases shape with
  | none => rfl
  | some found =>
      obtain ⟨taken, left⟩ := found
      cases left with
      | nil =>
          have last : wordEdge none = true := rfl
          simp [word?, goesOn, cuts.edge, last]
      | cons d more => rfl

theorem reference?_cut (text : List Char) : reference? (text ++ c :: rest) = reference? text := by
  rw [reference?, reference?, cornersShape?_cut cuts, pairShape?_cut cuts cuts.notAlpha,
    pairShape?_cut cuts cuts.notDigit, cellShape?_cut cuts]
  simp only [word?_cut cuts]

theorem ofCharsAfter_cut (previous : Option Char) (text : List Char) :
    ofCharsAfter previous (text ++ c :: rest) =
      ofCharsAfter previous text ++ plain c :: ofCharsAfter (some c) rest := by
  induction previous, text using ofCharsAfter_induction with
  | nil previous =>
      exact ofCharsAfter_of_none fun _ => reference?_eq_none cuts.notAlphanum rest
  | reference previous text piece behind edge found starts ih =>
      have starts' : Starts (text ++ c :: rest) piece (behind ++ c :: rest) := by
        refine ⟨⟨by rw [starts.text_eq, List.append_assoc], starts.begins, starts.members⟩, ?_⟩
        cases behind with
        | nil => exact cuts.edge
        | cons d more => exact starts.ends
      rw [ofCharsAfter_of_starts edge ((reference?_cut cuts text).trans found) starts', ih]
      rfl
  | plain previous d behind none ih =>
      have none' (edge : wordEdge previous = true) : reference? (d :: (behind ++ c :: rest)) = .none :=
        (reference?_cut cuts (d :: behind)).trans (none edge)
      rw [List.cons_append, ofCharsAfter_of_none none', ih]
      rfl

omit cuts

theorem ofCharsAfter_congr {previous previous' : Option Char}
    (same : wordEdge previous = wordEdge previous') (text : List Char) :
    ofCharsAfter previous text = ofCharsAfter previous' text := by
  cases text with
  | nil => rw [ofCharsAfter_nil, ofCharsAfter_nil]
  | cons c rest => rw [ofCharsAfter, ofCharsAfter, same]

end Worksheet.Piece
