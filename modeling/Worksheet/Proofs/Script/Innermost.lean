import Mathlib
import Worksheet.Proofs.Outcome
import Worksheet.Proofs.Script.Sites

/-!
# The calls that contain no other call

Of the calls of a text, `Script.innermost` finds those whose arguments hold no call, from left to
right. No two of them overlap, so that they can be replaced one by one from the last to the first
and what stands before them stays where it is. Wherever there is a call there is an innermost one.
-/

set_option autoImplicit false

namespace Worksheet.Script

/-- The text makes a call at the site, and what stands between its parentheses makes none. -/
def IsInnermost (text : List Char) (site : CallSite) : Prop :=
  ∃ inner, Calls text site inner ∧ ∀ other within, ¬ Calls inner other within

theorem innermost_eq_filter (script : Script) (offset : Nat) :
    script.innermost offset =
      ((script.calls offset).filter fun call => !call.2.hasCall).map Prod.fst := by
  induction script generalizing offset with
  | plain content => rfl
  | group lead inner rest ihInner ihRest =>
      rw [innermost, calls]
      simp only [List.filter_append, List.map_append, ← ihRest, ← ihInner]
      congr 1
      by_cases nested : inner.hasCall = true
      · cases named : callName? lead <;> simp [ownCall, named, nested]
      · have none : inner.calls (offset + byteSize lead + 1) = [] := by
          by_contra some
          exact nested ((hasCall_iff_calls inner _).mpr some)
        rw [ihInner, none]
        cases named : callName? lead <;> simp [ownCall, named, nested]

theorem liesIn_of_mem_innermost {script : Script} {offset : Nat} {site : CallSite}
    (member : site ∈ script.innermost offset) : site.LiesIn offset (offset + script.size) := by
  rw [innermost_eq_filter] at member
  obtain ⟨call, listed, rfl⟩ := List.mem_map.mp member
  exact liesIn_of_mem_calls (List.mem_of_mem_filter listed)

theorem pairwise_innermost (script : Script) (offset : Nat) :
    (script.innermost offset).Pairwise fun first second => first.closing < second.start := by
  induction script generalizing offset with
  | plain content => exact .nil
  | group lead inner rest ihInner ihRest =>
      rw [innermost, List.pairwise_append]
      refine ⟨?_, ihRest _, ?_⟩
      · split
        · exact ihInner _
        · split
          · exact List.pairwise_singleton _ _
          · exact .nil
      · intro first isFirst second isSecond
        have behind := (liesIn_of_mem_innermost isSecond).first_le
        have before : first.closing < offset + byteSize lead + 1 + inner.size + 1 := by
          split at isFirst
          · have within := (liesIn_of_mem_innermost isFirst).closing_lt
            omega
          · split at isFirst
            · rw [List.mem_singleton.mp isFirst]
              exact Nat.lt_succ_self _
            · cases isFirst
        exact Nat.lt_of_lt_of_le before behind

theorem innermost_ne_nil {script : Script} (calls : script.hasCall = true) (offset : Nat) :
    script.innermost offset ≠ [] := by
  induction script generalizing offset with
  | plain content => cases calls
  | group lead inner rest ihInner ihRest =>
      rw [innermost]
      intro none
      obtain ⟨own, behind⟩ := List.append_eq_nil_iff.mp none
      by_cases nested : inner.hasCall = true
      · rw [if_pos nested] at own
        exact ihInner nested _ own
      rw [if_neg nested] at own
      cases named : callName? lead with
      | some name => simp [named] at own
      | none =>
          simp only [hasCall, named, nested, Option.isSome_none, Bool.false_or] at calls
          exact ihRest calls _ behind

theorem mem_innermost_iff {script : Script} (matched : script.Matched false) {site : CallSite} :
    site ∈ script.innermost 0 ↔ IsInnermost script.chars site := by
  have callless {inner : Script} (innerMatched : inner.Matched false) :
      inner.hasCall = false ↔ ∀ other within, ¬ Calls inner.chars other within := by
    rw [← Bool.not_eq_true, hasCall_iff_calls inner 0, not_not]
    constructor
    · intro none other within calls
      obtain ⟨_, member, _⟩ := (calls_iff innerMatched).mp calls
      rw [none] at member
      cases member
    · intro none
      rw [List.eq_nil_iff_forall_not_mem]
      rintro ⟨other, within⟩ member
      exact none other within.chars ((calls_iff innerMatched).mpr ⟨within, member, rfl⟩)
  rw [innermost_eq_filter]
  constructor
  · intro member
    obtain ⟨⟨site, inner⟩, listed, rfl⟩ := List.mem_map.mp member
    obtain ⟨listed, none⟩ := List.mem_filter.mp listed
    have innerMatched := (isIn_of_mem_calls matched listed).1
    refine ⟨inner.chars, (calls_iff matched).mpr ⟨inner, listed, rfl⟩, ?_⟩
    exact (callless innerMatched).mp (by simpa using none)
  · rintro ⟨inner, calls, none⟩
    obtain ⟨innerScript, listed, rfl⟩ := (calls_iff matched).mp calls
    have innerMatched := (isIn_of_mem_calls matched listed).1
    refine List.mem_map.mpr ⟨(site, innerScript), List.mem_filter.mpr ⟨listed, ?_⟩, rfl⟩
    simpa using (callless innerMatched).mpr none

/-- Innermost calls can be found in the paired texts and in no others. What is found are exactly the
calls without calls between their parentheses, in order and each once; they do not overlap, and there
are some whenever the text makes a call. -/
theorem innermost_exactly (text : List Char) :
    ((∃ sites, innermost 0 <$> ofChars text = .ok sites) ↔ IsPaired text) ∧
      ∀ sites, innermost 0 <$> ofChars text = .ok sites →
        (∀ site, site ∈ sites ↔ IsInnermost text site) ∧
          sites.Nodup ∧
          sites.Pairwise (fun first second => first.closing < second.start) ∧
          (∀ site ∈ sites, site.start < site.opening ∧ site.opening < site.closing) ∧
          ((∃ site inner, Calls text site inner) → sites ≠ []) := by
  constructor
  · rw [← check_iff_isPaired]
    constructor
    · rintro ⟨sites, found⟩
      obtain ⟨script, read, _⟩ := Outcome.map_eq_ok.mp found
      obtain ⟨matched, rfl⟩ := ofChars_eq_ok.mp read
      exact matched.checked
    · intro checked
      obtain ⟨script, read⟩ := ofChars_of_check checked
      exact ⟨script.innermost 0, by rw [read]; rfl⟩
  · intro sites found
    obtain ⟨script, read, rfl⟩ := Outcome.map_eq_ok.mp found
    obtain ⟨matched, rfl⟩ := ofChars_eq_ok.mp read
    have apart := pairwise_innermost script 0
    have spans (site : CallSite) (member : site ∈ script.innermost 0) :
        site.start < site.opening ∧ site.opening < site.closing := by
      have lies := liesIn_of_mem_innermost member
      exact ⟨lies.name_pos, lies.opening_lt⟩
    refine ⟨fun site => mem_innermost_iff matched, ?_, apart, spans, ?_⟩
    · refine List.Pairwise.imp_of_mem ?_ apart
      rintro first second isFirst _ before rfl
      have span := spans first isFirst
      omega
    · rintro ⟨site, inner, calls⟩
      obtain ⟨innerScript, member, _⟩ := (calls_iff matched).mp calls
      exact innermost_ne_nil ((hasCall_iff_calls script 0).mpr (List.ne_nil_of_mem member)) 0

/-- A call in a group in a call, parentheses in a literal with doubled quotes, and characters of more
than one byte in front of the last call. -/
theorem innermost_exactly_of_groups :
    let text := "ROUND((AVERAGE(1,(2))),2)&\"é\"\"(\"&ABS((-1))".toList
    let average : CallSite := ⟨"AVERAGE".toList, 7, 14, 20⟩
    let absolute : CallSite := ⟨"ABS".toList, 34, 37, 42⟩
    innermost 0 <$> ofChars text = .ok [average, absolute] ∧ IsPaired text ∧
      IsInnermost text average ∧ IsInnermost text absolute ∧
      ∀ site, IsInnermost text site → site = average ∨ site = absolute := by
  intro text average absolute
  have found : innermost 0 <$> ofChars text = .ok [average, absolute] := by decide
  obtain ⟨exactly, _⟩ := (innermost_exactly text).2 _ found
  refine ⟨found, (innermost_exactly text).1.mp ⟨_, found⟩, ?_, ?_, ?_⟩
  · exact (exactly average).mp (by simp)
  · exact (exactly absolute).mp (by simp)
  · intro site innermost
    simpa using (exactly site).mpr innermost

end Worksheet.Script
