import Mathlib
import Worksheet.Proofs.Script.Name
import Worksheet.Proofs.Script.Pairing

/-!
# Where the calls of a text stand

A call of a text is an identifier directly in front of a parenthesis outside literals, up to the
parenthesis that closes it: the one behind a paired text. This says what a call is without reading
the text. In a script the calls are its named groups, and both are the same calls: what is written
between two parentheses that belong together is one script, whatever stands around it.
-/

set_option autoImplicit false

namespace Worksheet

theorem stopsName_reverse_iff {text : List Char} :
    StopsName text.reverse ↔ ∀ c ∈ text.getLast?, isNameChar c = false := by
  rw [StopsName, List.head?_reverse]

/-- Two ways to cut one list at a single element cut it at the same place, or one cut lies in front
of the other. -/
theorem eq_or_exists_of_cuts {α : Type} {front front' back back' : List α} {a b : α}
    (same : front ++ a :: back = front' ++ b :: back') :
    (front = front' ∧ a = b ∧ back = back') ∨
      (∃ between, front' = front ++ a :: between ∧ back = between ++ b :: back') ∨
        ∃ between, front = front' ++ b :: between ∧ back' = between ++ a :: back := by
  rcases List.append_eq_append_iff.mp same with ⟨between, longer, rest⟩ | ⟨between, longer, rest⟩
  · cases between with
    | nil =>
        obtain ⟨rfl, rfl⟩ := List.cons.inj rest
        exact .inl ⟨by simpa using longer.symm, rfl, rfl⟩
    | cons c between =>
        obtain ⟨rfl, rfl⟩ := List.cons.inj rest
        exact .inr (.inl ⟨between, longer, rfl⟩)
  · cases between with
    | nil =>
        obtain ⟨rfl, rfl⟩ := List.cons.inj rest
        exact .inl ⟨by simpa using longer, rfl, rfl⟩
    | cons c between =>
        obtain ⟨rfl, rfl⟩ := List.cons.inj rest
        exact .inr (.inr ⟨between, longer, rfl⟩)

namespace Script

/-- A call in a text that starts at `offset`: what stands before it, between its parentheses and
after it. -/
structure CallSite.IsIn (site : CallSite) (offset : Nat) (text before inner after : List Char) :
    Prop where
  text_eq : text = before ++ (site.name ++ '(' :: (inner ++ ')' :: after))
  identifier : IsIdentifier site.name
  whole : ∀ c ∈ before.getLast?, isNameChar c = false
  outside : before.count '"' % 2 = 0
  paired : IsPaired inner
  start_eq : site.start = offset + byteSize before
  opening_eq : site.opening = site.start + byteSize site.name
  closing_eq : site.closing = site.opening + 1 + byteSize inner

/-- The text makes a call at the site, with the text `inner` between its parentheses. -/
def Calls (text : List Char) (site : CallSite) (inner : List Char) : Prop :=
  ∃ before after, site.IsIn 0 text before inner after

/-- A call of a part of a text is a call of the text, if the part begins outside literals and no name
reaches into it. -/
theorem CallSite.IsIn.within {site : CallSite} {offset offset' : Nat}
    {text front part back before inner after : List Char}
    (isIn : site.IsIn offset' part before inner after) (text_eq : text = front ++ (part ++ back))
    (offset_eq : offset' = offset + byteSize front) (outside : front.count '"' % 2 = 0)
    (stops : ∀ c ∈ front.getLast?, isNameChar c = false) :
    site.IsIn offset text (front ++ before) inner (after ++ back) where
  text_eq := by simp [text_eq, isIn.text_eq]
  identifier := isIn.identifier
  whole := by
    intro c member
    rw [List.getLast?_append, Option.mem_def, Option.or_eq_some_iff] at member
    rcases member with last | ⟨_, last⟩
    · exact isIn.whole c last
    · exact stops c last
  outside := by
    have even := isIn.outside
    rw [List.count_append]
    omega
  paired := isIn.paired
  start_eq := by rw [isIn.start_eq, offset_eq, byteSize_append, Nat.add_assoc]
  opening_eq := isIn.opening_eq
  closing_eq := isIn.closing_eq

/-! ## Calls of a script -/

def ownCall (offset : Nat) (lead : List Char) (inner : Script) : Option CallSite :=
  (callName? lead).map fun name =>
    let opening := offset + byteSize lead
    ⟨name, opening - byteSize name, opening, opening + 1 + inner.size⟩

/-- The calls of a script with what stands between their parentheses, each in front of the calls
inside it; the script starts at `offset`. -/
def calls (offset : Nat) : Script → List (CallSite × Script)
  | plain _ => []
  | group lead inner rest =>
      let opening := offset + byteSize lead
      ((ownCall offset lead inner).toList.map fun site => (site, inner)) ++
        inner.calls (opening + 1) ++ rest.calls (opening + 1 + inner.size + 1)

theorem mem_calls_group {offset : Nat} {lead : List Char} {inner rest : Script}
    {call : CallSite × Script} :
    call ∈ (group lead inner rest).calls offset ↔
      (∃ site, ownCall offset lead inner = some site ∧ call = (site, inner)) ∨
        call ∈ inner.calls (offset + byteSize lead + 1) ∨
          call ∈ rest.calls (offset + byteSize lead + 1 + inner.size + 1) := by
  rw [calls]
  simp only [List.mem_append, List.mem_map, Option.mem_toList, or_assoc, eq_comm (b := call)]

structure CallSite.LiesIn (site : CallSite) (first last : Nat) : Prop where
  first_le : first ≤ site.start
  name_pos : site.start < site.opening
  opening_lt : site.opening < site.closing
  closing_lt : site.closing < last

theorem byteSize_pos {text : List Char} (nonempty : text ≠ []) : 0 < byteSize text := by
  obtain ⟨c, rest, rfl⟩ := List.exists_cons_of_ne_nil nonempty
  have wide := Char.utf8Size_pos c
  rw [byteSize]
  omega

theorem byteSize_opened (lead within : List Char) :
    byteSize (lead ++ '(' :: within) = byteSize lead + 1 + byteSize within := by
  have narrow : '('.utf8Size = 1 := by decide
  rw [byteSize_append, byteSize, narrow, Nat.add_assoc]

theorem byteSize_closed (lead : List Char) (inner : Script) (beyond : List Char) :
    byteSize (lead ++ '(' :: (inner.chars ++ ')' :: beyond)) =
      byteSize lead + 1 + inner.size + 1 + byteSize beyond := by
  have narrow : ')'.utf8Size = 1 := by decide
  rw [byteSize_opened, byteSize_append, byteSize, narrow, byteSize_chars]
  omega

theorem eq_of_ownCall {offset : Nat} {lead : List Char} {inner : Script} {site : CallSite}
    (own : ownCall offset lead inner = some site) :
    callName? lead = some site.name ∧
      site.start = offset + byteSize (beforeName lead site.name) ∧
      site.opening = site.start + byteSize site.name ∧
      site.opening = offset + byteSize lead ∧ site.closing = site.opening + 1 + inner.size := by
  obtain ⟨name, named, rfl⟩ := Option.map_eq_some_iff.mp own
  have split := congrArg byteSize (lead_eq_of_callName? named).1
  rw [byteSize_append] at split
  refine ⟨named, ?_, ?_, rfl, rfl⟩
  · change offset + byteSize lead - byteSize name = offset + byteSize (beforeName lead name)
    omega
  · change offset + byteSize lead = offset + byteSize lead - byteSize name + byteSize name
    omega

theorem liesIn_of_mem_calls {script : Script} {offset : Nat} {call : CallSite × Script}
    (member : call ∈ script.calls offset) : call.1.LiesIn offset (offset + script.size) := by
  induction script generalizing offset with
  | plain content => cases member
  | group lead inner rest ihInner ihRest =>
      rw [size]
      rcases mem_calls_group.mp member with ⟨site, own, rfl⟩ | member | member
      · obtain ⟨named, start, name, opening, closing⟩ := eq_of_ownCall own
        have wide := byteSize_pos (nameBehind?_ne_nil named)
        constructor <;> dsimp only <;> omega
      · obtain ⟨first, name, opening, last⟩ := ihInner member
        exact ⟨by omega, name, opening, by omega⟩
      · obtain ⟨first, name, opening, last⟩ := ihRest member
        exact ⟨by omega, name, opening, by omega⟩

theorem hasCall_iff_calls (script : Script) (offset : Nat) :
    script.hasCall = true ↔ script.calls offset ≠ [] := by
  induction script generalizing offset with
  | plain content => simp [hasCall, calls]
  | group lead inner rest ihInner ihRest =>
      rw [hasCall, Bool.or_eq_true, Bool.or_eq_true, ihInner (offset + byteSize lead + 1),
        ihRest (offset + byteSize lead + 1 + inner.size + 1), calls]
      cases named : callName? lead with
      | none => simp [ownCall, named, ← not_and_or]
      | some name => simp [ownCall, named]

theorem stops_opening (text : List Char) : ∀ c ∈ (text ++ ['(']).getLast?, isNameChar c = false := by
  rw [List.getLast?_concat]
  rintro c ⟨⟩
  decide

theorem stops_closing (text : List Char) : ∀ c ∈ (text ++ [')']).getLast?, isNameChar c = false := by
  rw [List.getLast?_concat]
  rintro c ⟨⟩
  decide

theorem even_of_flat {text : List Char} (flat : isFlat false text = true) :
    text.count '"' % 2 = 0 :=
  endsQuoted_eq_false_iff.mp (endsQuoted_of_flat flat)

theorem even_of_matched {script : Script} (matched : script.Matched false) :
    script.chars.count '"' % 2 = 0 :=
  endsQuoted_eq_false_iff.mp (endsQuoted_chars matched)

/-- What a script lists as a call is a call of its text. -/
theorem isIn_of_mem_calls {script : Script} (matched : script.Matched false) {offset : Nat}
    {call : CallSite × Script} (member : call ∈ script.calls offset) :
    call.2.Matched false ∧
      ∃ before after, call.1.IsIn offset script.chars before call.2.chars after := by
  induction script generalizing offset with
  | plain content => cases member
  | group lead inner rest ihInner ihRest =>
      obtain ⟨flat, innerMatched, restMatched⟩ := matched
      have leadEven := even_of_flat flat
      have innerEven := even_of_matched innerMatched
      rcases mem_calls_group.mp member with ⟨site, own, rfl⟩ | member | member
      · obtain ⟨named, start, name, opening, closing⟩ := eq_of_ownCall own
        obtain ⟨whole, stops⟩ := lead_eq_of_callName? named
        refine ⟨innerMatched, beforeName lead site.name, rest.chars, ?_⟩
        constructor
        · conv_lhs => rw [chars, whole]
          simp
        · exact isIdentifier_of_nameBehind? named
        · exact stopsName_reverse_iff.mp stops
        · exact even_of_flat (isFlat_beforeName flat named)
        · exact check_iff_isPaired.mp innerMatched.checked
        · exact start
        · exact name
        · rw [byteSize_chars]
          exact closing
      · obtain ⟨matched, before, after, isIn⟩ := ihInner innerMatched member
        refine ⟨matched, lead ++ ['('] ++ before, after ++ ')' :: rest.chars, isIn.within ?_ ?_ ?_ ?_⟩
        · simp [chars]
        · rw [byteSize_opened, byteSize, Nat.add_zero, Nat.add_assoc]
        · simpa using leadEven
        · exact stops_opening lead
      · obtain ⟨matched, before, after, isIn⟩ := ihRest restMatched member
        refine ⟨matched, lead ++ '(' :: inner.chars ++ [')'] ++ before, after ++ [],
          isIn.within ?_ ?_ ?_ ?_⟩
        · simp [chars]
        · have size := byteSize_closed lead inner []
          simp only [List.append_assoc, List.cons_append, size, byteSize]
          omega
        · simp
          omega
        · exact stops_closing _

theorem endsQuoted_of_flat_opening {front back : List Char} {inside : Bool}
    (flat : isFlat inside (front ++ '(' :: back) = true) : endsQuoted inside front = true := by
  induction front generalizing inside with
  | nil =>
      cases inside with
      | true => rfl
      | false => simp [isFlat] at flat
  | cons c rest ih =>
      rw [List.cons_append] at flat
      rw [endsQuoted]
      by_cases isQuote : c = '"'
      · rw [isQuote, isFlat_quote] at flat
        rw [if_pos isQuote]
        exact ih flat
      · rw [if_neg isQuote]
        cases inside with
        | true =>
            rw [isFlat_within isQuote] at flat
            exact ih flat
        | false =>
            simp only [isFlat, if_neg isQuote, Bool.false_eq_true, if_false, Bool.and_eq_true] at flat
            exact ih flat.2

theorem eq_of_closings {first second : Script} (matched : first.Matched false)
    (matched' : second.Matched false) {after after' : List Char}
    (same : first.chars ++ ')' :: after = second.chars ++ ')' :: after') : first = second := by
  have levels (script : Script) (matched : script.Matched false) (after : List Char) :
      (levels false (script.chars ++ ')' :: after)).head? = some script := by
    have closing : levels false (')' :: after) = plain [] :: levels false after := rfl
    rw [levels_chars matched, closing, appendFirst, append_plain_nil]
    rfl
  have read := levels first matched after
  rw [same, levels second matched' after'] at read
  exact (Option.some.inj read).symm

theorem ownCall_append {front : List Char} (stops : ∀ c ∈ front.getLast?, isNameChar c = false)
    (offset : Nat) (lead : List Char) (inner : Script) :
    ownCall offset (front ++ lead) inner = ownCall (offset + byteSize front) lead inner := by
  have same : callName? (front ++ lead) = callName? lead := by
    rw [callName?, callName?, List.reverse_append]
    exact nameBehind?_append_of_stops _ (stopsName_reverse_iff.mpr stops)
  rw [ownCall, ownCall, same, byteSize_append, Nat.add_assoc]

/-- A parenthesis of a script that opens outside literals is that of a group, and the call that the
group makes is listed. -/
theorem exists_of_opening {script : Script} (matched : script.Matched false) {front back : List Char}
    (same : script.chars = front ++ '(' :: back) (outside : endsQuoted false front = false)
    (offset : Nat) :
    ∃ inner after, inner.Matched false ∧ back = inner.chars ++ ')' :: after ∧
      ∀ site, ownCall offset front inner = some site → (site, inner) ∈ script.calls offset := by
  induction script generalizing front back offset with
  | plain content =>
      rw [Matched, show content = front ++ '(' :: back from same] at matched
      rw [endsQuoted_of_flat_opening matched] at outside
      cases outside
  | group lead inner rest ihInner ihRest =>
      obtain ⟨flat, innerMatched, restMatched⟩ := matched
      have whole : lead ++ '(' :: (inner.chars ++ ')' :: rest.chars) = front ++ '(' :: back := by
        rw [← same]
        simp [chars]
      rcases eq_or_exists_of_cuts whole with ⟨rfl, _, rfl⟩ | ⟨between, rfl, split⟩ | ⟨between, rfl, _⟩
      · -- the parenthesis is that of the group itself
        refine ⟨inner, rest.chars, innerMatched, rfl, ?_⟩
        intro site own
        exact mem_calls_group.mpr (.inl ⟨site, own, rfl⟩)
      · have beyond : endsQuoted false between = false := by
          rw [endsQuoted_append, endsQuoted_of_flat flat] at outside
          exact outside
        rcases eq_or_exists_of_cuts split with ⟨_, differ, _⟩ | ⟨behind, rfl, restSplit⟩ |
          ⟨behind, innerSplit, rfl⟩
        · exact absurd differ (by decide)
        · -- it stands behind the group
          have behindOutside : endsQuoted false behind = false := by
            rw [endsQuoted_append, endsQuoted_chars innerMatched] at beyond
            exact beyond
          obtain ⟨last, after, lastMatched, back_eq, listed⟩ :=
            ihRest restMatched restSplit behindOutside (offset + byteSize lead + 1 + inner.size + 1)
          refine ⟨last, after, lastMatched, back_eq, ?_⟩
          intro site own
          have front_eq : lead ++ '(' :: (inner.chars ++ ')' :: behind) =
              lead ++ '(' :: inner.chars ++ [')'] ++ behind := by simp
          have size_eq : byteSize (lead ++ '(' :: inner.chars ++ [')']) =
              byteSize lead + 1 + inner.size + 1 := by
            simpa [byteSize] using byteSize_closed lead inner []
          rw [front_eq, ownCall_append (stops_closing _), size_eq] at own
          simp only [← Nat.add_assoc] at own
          exact mem_calls_group.mpr (.inr (.inr (listed site own)))
        · -- it stands within the group
          obtain ⟨last, after, lastMatched, rfl, listed⟩ :=
            ihInner innerMatched innerSplit beyond (offset + byteSize lead + 1)
          refine ⟨last, after ++ ')' :: rest.chars, lastMatched, by simp, ?_⟩
          intro site own
          have front_eq : lead ++ '(' :: between = lead ++ ['('] ++ between := by simp
          have size_eq : byteSize (lead ++ ['(']) = byteSize lead + 1 := by
            rw [byteSize_opened, byteSize, Nat.add_zero]
          rw [front_eq, ownCall_append (stops_opening _), size_eq, ← Nat.add_assoc] at own
          exact mem_calls_group.mpr (.inr (.inl (listed site own)))
      · rw [endsQuoted_of_flat_opening flat] at outside
        cases outside

theorem mem_calls_of_isIn {script : Script} (matched : script.Matched false) {offset : Nat}
    {site : CallSite} {before inner after : List Char}
    (isIn : site.IsIn offset script.chars before inner after) :
    ∃ innerScript, (site, innerScript) ∈ script.calls offset ∧ innerScript.chars = inner := by
  have plain : IsPlain site.name := isPlain_of_nameChars fun _ => isIn.identifier.members
  have outside : endsQuoted false (before ++ site.name) = false := by
    rw [endsQuoted_append, endsQuoted_eq_false_iff.mpr isIn.outside, endsQuoted_plain _ plain]
  have text_eq : script.chars = (before ++ site.name) ++ '(' :: (inner ++ ')' :: after) := by
    rw [isIn.text_eq, List.append_assoc]
  obtain ⟨innerScript, after', innerMatched, back_eq, listed⟩ :=
    exists_of_opening matched text_eq outside offset
  -- the paired text between the parentheses is read as a script, and there is only one
  obtain ⟨read, readInner⟩ := ofChars_of_check (check_iff_isPaired.mpr isIn.paired)
  obtain ⟨readMatched, rfl⟩ := ofChars_eq_ok.mp readInner
  obtain rfl := eq_of_closings readMatched innerMatched back_eq
  refine ⟨read, listed site ?_, rfl⟩
  have named : callName? (before ++ site.name) = some site.name := by
    rw [callName?, nameBehind?_eq_some_iff, List.reverse_append]
    exact ⟨isIn.identifier, before.reverse, rfl, stopsName_reverse_iff.mpr isIn.whole⟩
  have opening : offset + byteSize (before ++ site.name) = site.opening := by
    rw [isIn.opening_eq, isIn.start_eq, byteSize_append, Nat.add_assoc]
  have start : site.opening - byteSize site.name = site.start := by
    have name := isIn.opening_eq
    omega
  rw [ownCall, named, Option.map_some]
  simp only [opening, start, ← byteSize_chars, ← isIn.closing_eq]

theorem calls_iff {script : Script} (matched : script.Matched false) {site : CallSite}
    {inner : List Char} :
    Calls script.chars site inner ↔
      ∃ innerScript, (site, innerScript) ∈ script.calls 0 ∧ innerScript.chars = inner := by
  constructor
  · rintro ⟨before, after, isIn⟩
    exact mem_calls_of_isIn matched isIn
  · rintro ⟨innerScript, member, rfl⟩
    exact (isIn_of_mem_calls matched member).2

end Script

end Worksheet
