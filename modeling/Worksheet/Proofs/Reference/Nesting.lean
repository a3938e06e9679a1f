import Mathlib
import Worksheet.Proofs.Reference.Part
import Worksheet.Proofs.Script.Depth

/-!
# How deep the calls of a resolved text nest

No reference is a call and no literal of one holds any, so resolving a text leaves its calls as deep
as they were: whether a formula stays within the limit of nesting can be told from the formula.
-/

set_option autoImplicit false

namespace Worksheet

variable {grid : Grid} {settings : Settings}

namespace Script

theorem callDepth_append_group {front : Script} (none : front.hasCall = false)
    (inner rest : Script) :
    (front.append (group [] inner rest)).callDepth =
      max (inner.callDepth + if (callName? front.chars).isSome then 1 else 0) rest.callDepth := by
  induction front with
  | plain content => rw [append, prepend, List.append_nil, callDepth, chars]
  | group lead within behind _ ihBehind =>
      simp only [hasCall, Bool.or_eq_false_iff] at none
      obtain ⟨⟨nameless, withinNone⟩, behindNone⟩ := none
      rw [append, callDepth, ihBehind behindNone, callDepth_of_no_call withinNone, nameless, chars, List.append_assoc,
        List.cons_append, ← List.cons_append, ← List.append_assoc, callName?_behind_closing]
      simp

end Script

theorem Place.clear_behind {place : Place} (outside : place.inside = false) {front : List Char}
    (closed : endsQuoted false front = false) {c : Char} (parenthesis : c = '(' ∨ c = ')') :
    ((front ++ [c]).foldl Place.step place).inside = false ∧
      StopsName ((front ++ [c]).foldl Place.step place).behind := by
  rw [Place.inside_foldl, Place.behind_foldl, outside, endsQuoted_append, closed,
    List.reverse_append]
  rcases parenthesis with rfl | rfl
  · exact ⟨rfl, stopsName_opening _⟩
  · exact ⟨rfl, stopsName_closing _⟩

theorem callDepth_of_resolveFrom_flat {place : Place} {content resolved : List Char}
    (outside : place.inside = false) (stops : StopsName place.behind)
    (flat : isFlat false content = true)
    (read : resolveFrom grid settings place content = .ok resolved) :
    ∃ script', Script.ofChars resolved = .ok script' ∧ script'.callDepth = 0 := by
  have shared (near : List Char) : nameBehind? (near ++ place.behind) = nameBehind? (near ++ []) := by
    rw [nameBehind?_append_of_stops near stops, List.append_nil]
  obtain ⟨names, check⟩ := resolvePieces_keeps _ content place [] resolved rfl read (.inl shared)
  rw [outside, callNamesFrom_of_flat flat] at names
  have checked : Script.check 0 false resolved = .ok () := by
    have same := check 0
    rw [outside] at same
    exact same.trans (@Script.Matched.checked (.plain content) false flat)
  obtain ⟨script', read'⟩ := Script.ofChars_of_check checked
  obtain ⟨matched', rfl⟩ := Script.ofChars_eq_ok.mp read'
  exact ⟨script', read',
    Script.callDepth_of_no_call (hasCall_of_no_names matched' stopsName_nil names)⟩

/-- The calls of a text that resolves outside literals, with no name behind it, nest as deep as
before. -/
theorem callDepth_of_resolveFrom {script : Script} (matched : script.Matched false) :
    ∀ (place : Place) (resolved : List Char), place.inside = false → StopsName place.behind →
      resolveFrom grid settings place script.chars = .ok resolved →
      ∃ script', Script.ofChars resolved = .ok script' ∧ script'.callDepth = script.callDepth := by
  induction script with
  | plain content =>
      intro place resolved outside stops read
      exact callDepth_of_resolveFrom_flat outside stops matched read
  | group lead inner rest ihInner ihRest =>
      intro place resolved outside stops read
      obtain ⟨flat, innerMatched, restMatched⟩ := matched
      have leadChecked : Script.check 0 false lead = .ok () :=
        @Script.Matched.checked (.plain lead) false flat
      have whole : (Script.group lead inner rest).chars =
          lead ++ '(' :: (inner.chars ++ ')' :: rest.chars) := by simp [Script.chars]
      rw [whole] at read
      obtain ⟨front, text, back, rfl, sameName, sameNames, checked, textRead, backRead, _⟩ :=
        exists_of_resolveFrom_group outside stops leadChecked read
      have leadClosed := endsQuoted_of_flat flat
      have innerClosed : endsQuoted false (lead ++ '(' :: inner.chars) = false := by
        rw [endsQuoted_append, leadClosed]
        exact Script.endsQuoted_chars innerMatched
      obtain ⟨opened, openedStops⟩ := Place.clear_behind outside leadClosed (.inl rfl)
      obtain ⟨closed, closedStops⟩ := Place.clear_behind outside innerClosed (.inr rfl)
      rw [List.append_assoc, List.cons_append] at closed closedStops
      obtain ⟨inner', innerRead, innerDepth⟩ := ihInner innerMatched _ _ opened openedStops textRead
      obtain ⟨rest', restRead, restDepth⟩ := ihRest restMatched _ _ closed closedStops backRead
      obtain ⟨front', frontRead⟩ := Script.ofChars_of_check checked
      obtain ⟨frontMatched, rfl⟩ := Script.ofChars_eq_ok.mp frontRead
      obtain ⟨innerMatched', rfl⟩ := Script.ofChars_eq_ok.mp innerRead
      obtain ⟨restMatched', rfl⟩ := Script.ofChars_eq_ok.mp restRead
      -- what stands in front of the group is flat, so it resolves to a script without calls
      rw [show callNames lead = [] from callNamesFrom_of_flat flat []] at sameNames
      have none : front'.hasCall = false :=
        hasCall_of_no_names frontMatched stopsName_nil sameNames
      refine ⟨front'.append (.group [] inner' rest'), Script.ofChars_eq_ok.mpr ⟨?_, ?_⟩, ?_⟩
      · exact frontMatched.append ⟨rfl, innerMatched', restMatched'⟩
      · simp [Script.chars_append, Script.chars]
      · rw [Script.callDepth_append_group none, sameName, innerDepth, restDepth, Script.callDepth]

theorem callDepth_of_resolve {text resolved : List Char} {script : Script}
    (read : Script.ofChars text = .ok script)
    (resolves : resolve grid settings text = .ok resolved) :
    ∃ script', Script.ofChars resolved = .ok script' ∧ script'.callDepth = script.callDepth := by
  obtain ⟨matched, rfl⟩ := Script.ofChars_eq_ok.mp read
  exact callDepth_of_resolveFrom matched {} resolved rfl stopsName_nil resolves

end Worksheet
