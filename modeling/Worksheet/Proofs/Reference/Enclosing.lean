import Mathlib
import Worksheet.Proofs.Reference.Part
import Worksheet.Proofs.Script.Sites

/-!
# The call around a place

Going through a text from the left keeps one flag for each parenthesis that is open. What the flags
say at a place is said here by the calls of the text: text is read there exactly when the innermost
call with the place between its parentheses is one of `CONCAT`. Parentheses that only group are not
calls, so they are looked through.
-/

set_option autoImplicit false

namespace Worksheet

namespace Script

def CallSite.Encloses (site : CallSite) (place : Nat) : Prop :=
  site.opening < place ∧ place ≤ site.closing

/-- Of the given calls the innermost that encloses a place: of all that do, it opens last. -/
structure IsNearest (calls : CallSite → Prop) (place : Nat) (site : CallSite) : Prop where
  isCall : calls site
  encloses : site.Encloses place
  nearest : ∀ other, calls other → other.Encloses place → other.opening ≤ site.opening

def IsAround (text : List Char) (place : Nat) : CallSite → Prop :=
  IsNearest (fun site => ∃ inner, Calls text site inner) place

/-- The innermost call around a place of a script that starts at `offset`. -/
def around? (offset place : Nat) : Script → Option CallSite
  | plain _ => none
  | group lead inner rest =>
      let opening := offset + byteSize lead
      if place ≤ opening then none
      else if place ≤ opening + 1 + inner.size then
        (inner.around? (opening + 1) place).or (ownCall offset lead inner)
      else rest.around? (opening + 1 + inner.size + 1) place

def Lists (offset : Nat) (script : Script) (site : CallSite) : Prop :=
  ∃ inner, (site, inner) ∈ script.calls offset

theorem lists_group {offset : Nat} {lead : List Char} {inner rest : Script} {site : CallSite} :
    (group lead inner rest).Lists offset site ↔
      ownCall offset lead inner = some site ∨ inner.Lists (offset + byteSize lead + 1) site ∨
        rest.Lists (offset + byteSize lead + 1 + inner.size + 1) site := by
  constructor
  · rintro ⟨body, member⟩
    rcases mem_calls_group.mp member with ⟨_, own, same⟩ | member | member
    · obtain ⟨rfl, rfl⟩ := Prod.mk.inj same
      exact .inl own
    · exact .inr (.inl ⟨body, member⟩)
    · exact .inr (.inr ⟨body, member⟩)
  · rintro (own | ⟨body, member⟩ | ⟨body, member⟩)
    · exact ⟨inner, mem_calls_group.mpr (.inl ⟨site, own, rfl⟩)⟩
    · exact ⟨body, mem_calls_group.mpr (.inr (.inl member))⟩
    · exact ⟨body, mem_calls_group.mpr (.inr (.inr member))⟩

theorem Lists.liesIn {offset : Nat} {script : Script} {site : CallSite}
    (listed : script.Lists offset site) : site.LiesIn offset (offset + script.size) := by
  obtain ⟨inner, member⟩ := listed
  exact liesIn_of_mem_calls member

theorem isSome_around? {script : Script} {offset place : Nat} {site : CallSite}
    (listed : script.Lists offset site) (encloses : site.Encloses place) :
    (script.around? offset place).isSome = true := by
  induction script generalizing offset with
  | plain content =>
      obtain ⟨_, member⟩ := listed
      cases member
  | group lead inner rest ihInner ihRest =>
      obtain ⟨after, before⟩ := encloses
      simp only [around?]
      rcases lists_group.mp listed with own | listed | listed
      · obtain ⟨_, _, _, opening, closing⟩ := eq_of_ownCall own
        rw [if_neg (by omega), if_pos (by omega), own]
        cases inner.around? (offset + byteSize lead + 1) place <;> rfl
      · obtain ⟨first, name, opening, last⟩ := listed.liesIn
        rw [if_neg (by omega), if_pos (by omega), Option.isSome_or, ihInner listed]
        rfl
      · obtain ⟨first, name, opening, last⟩ := listed.liesIn
        rw [if_neg (by omega), if_neg (by omega)]
        exact ihRest listed

/-- What `around?` gives is the innermost call around the place. -/
theorem isNearest_of_around? {script : Script} {offset place : Nat} {site : CallSite}
    (found : script.around? offset place = some site) :
    IsNearest (script.Lists offset) place site := by
  induction script generalizing offset with
  | plain content => cases found
  | group lead inner rest ihInner ihRest =>
      simp only [around?] at found
      split at found
      · cases found
      · rename_i behindOpening
        split at found
        · rename_i beforeClosing
          -- what comes later opens behind the place
          have notLater (other : CallSite)
              (listed : rest.Lists (offset + byteSize lead + 1 + inner.size + 1) other)
              (encloses : other.Encloses place) : False := by
            obtain ⟨first, name, _, _⟩ := listed.liesIn
            have opens := encloses.1
            omega
          rcases Option.or_eq_some_iff.mp found with found | ⟨noneInside, own⟩
          · obtain ⟨listed, encloses, nearest⟩ := ihInner found
            refine ⟨lists_group.mpr (.inr (.inl listed)), encloses, ?_⟩
            intro other isCall around
            rcases lists_group.mp isCall with own | inside | later
            · obtain ⟨_, _, _, opening, _⟩ := eq_of_ownCall own
              obtain ⟨first, name, _, _⟩ := listed.liesIn
              omega
            · exact nearest other inside around
            · exact (notLater other later around).elim
          · obtain ⟨_, _, _, opening, closing⟩ := eq_of_ownCall own
            refine ⟨lists_group.mpr (.inl own), ⟨by omega, by omega⟩, ?_⟩
            intro other isCall around
            rcases lists_group.mp isCall with same | inside | later
            · rw [own] at same
              rw [Option.some.inj same]
            · have found := isSome_around? inside around
              rw [noneInside] at found
              cases found
            · exact (notLater other later around).elim
        · rename_i behindClosing
          obtain ⟨listed, encloses, nearest⟩ := ihRest found
          refine ⟨lists_group.mpr (.inr (.inr listed)), encloses, ?_⟩
          intro other isCall around
          rcases lists_group.mp isCall with own | inside | later
          · obtain ⟨_, _, _, _, closing⟩ := eq_of_ownCall own
            have closes := around.2
            omega
          · obtain ⟨_, _, _, last⟩ := inside.liesIn
            have closes := around.2
            omega
          · exact nearest other later around

theorem pairwise_calls (script : Script) (offset : Nat) :
    (script.calls offset).Pairwise fun first second => first.1.opening < second.1.opening := by
  induction script generalizing offset with
  | plain content => exact .nil
  | group lead inner rest ihInner ihRest =>
      rw [calls, List.pairwise_append, List.pairwise_append]
      refine ⟨⟨?_, ihInner _, ?_⟩, ihRest _, ?_⟩
      · cases ownCall offset lead inner with
        | none => exact .nil
        | some site => exact List.pairwise_singleton _ _
      · intro own isOwn call inside
        obtain ⟨site, same, rfl⟩ := List.mem_map.mp isOwn
        obtain ⟨_, _, _, opening, _⟩ := eq_of_ownCall (Option.mem_toList.mp same)
        obtain ⟨first, name, _, _⟩ := liesIn_of_mem_calls inside
        dsimp only
        omega
      · intro call isFirst later isLater
        obtain ⟨first, name, _, _⟩ := liesIn_of_mem_calls isLater
        rcases List.mem_append.mp isFirst with isOwn | inside
        · obtain ⟨site, same, rfl⟩ := List.mem_map.mp isOwn
          obtain ⟨_, _, _, opening, _⟩ := eq_of_ownCall (Option.mem_toList.mp same)
          dsimp only
          omega
        · obtain ⟨_, _, between, last⟩ := liesIn_of_mem_calls inside
          omega

theorem around?_eq_some_iff {script : Script} {offset place : Nat} {site : CallSite} :
    script.around? offset place = some site ↔ IsNearest (script.Lists offset) place site := by
  constructor
  · exact isNearest_of_around?
  · rintro ⟨isCall, encloses, nearest⟩
    obtain ⟨found, around⟩ := Option.isSome_iff_exists.mp (isSome_around? isCall encloses)
    obtain ⟨⟨inner', member'⟩, encloses', nearest'⟩ := isNearest_of_around? around
    have sameOpening : site.opening = found.opening :=
      Nat.le_antisymm (nearest' site isCall encloses) (nearest found ⟨inner', member'⟩ encloses')
    obtain ⟨inner, member⟩ := isCall
    have distinct : ((script.calls offset).map fun call => call.1.opening).Nodup :=
      List.pairwise_map.mpr ((pairwise_calls script offset).imp Nat.ne_of_lt)
    have same := List.inj_on_of_nodup_map distinct member member' sameOpening
    rw [around, (Prod.mk.inj same).1]

/-! Around a place within a group stands what is in the group, or the group itself. -/

section

variable {offset : Nat} {lead : List Char} {inner rest : Script}

theorem around?_before {front more : List Char} (split : lead = front ++ more) :
    (group lead inner rest).around? offset (offset + byteSize front) = none := by
  have before : offset + byteSize front ≤ offset + byteSize lead := by
    rw [split, byteSize_append]
    omega
  simp only [around?, if_pos before]

theorem around?_within {within more : List Char} (split : inner.chars = within ++ more) :
    (group lead inner rest).around? offset (offset + byteSize (lead ++ '(' :: within)) =
      (inner.around? (offset + byteSize lead + 1)
        (offset + byteSize lead + 1 + byteSize within)).or (ownCall offset lead inner) := by
  have bound : byteSize within ≤ inner.size := by
    rw [← byteSize_chars, split, byteSize_append]
    omega
  have size : offset + byteSize (lead ++ '(' :: within) =
      offset + byteSize lead + 1 + byteSize within := by
    rw [byteSize_opened]
    omega
  rw [around?, size]
  rw [if_neg (by omega), if_pos (by omega)]

theorem around?_beyond (beyond : List Char) :
    (group lead inner rest).around? offset
        (offset + byteSize (lead ++ '(' :: (inner.chars ++ ')' :: beyond))) =
      rest.around? (offset + byteSize lead + 1 + inner.size + 1)
        (offset + byteSize lead + 1 + inner.size + 1 + byteSize beyond) := by
  have size : offset + byteSize (lead ++ '(' :: (inner.chars ++ ')' :: beyond)) =
      offset + byteSize lead + 1 + inner.size + 1 + byteSize beyond := by
    rw [byteSize_closed]
    omega
  rw [around?, size]
  rw [if_neg (by omega), if_neg (by omega)]

end

theorem isAround_iff {script : Script} (matched : script.Matched false) {place : Nat}
    {site : CallSite} : IsAround script.chars place site ↔ script.around? 0 place = some site := by
  have same : (fun site => ∃ inner, Calls script.chars site inner) = script.Lists 0 := by
    funext site
    simp only [calls_iff matched, Lists]
    apply propext
    constructor
    · rintro ⟨_, inner, member, _⟩
      exact ⟨inner, member⟩
    · rintro ⟨inner, member⟩
      exact ⟨inner.chars, inner, member, rfl⟩
  rw [IsAround, same, around?_eq_some_iff]

end Script

/-! ## What the flags say -/

theorem exists_of_group_prefix {lead inner rest front back : List Char}
    (whole : lead ++ '(' :: (inner ++ ')' :: rest) = front ++ back) :
    (∃ more, lead = front ++ more) ∨
      (∃ within more, front = lead ++ '(' :: within ∧ inner = within ++ more) ∨
        ∃ beyond, front = lead ++ '(' :: (inner ++ ')' :: beyond) ∧ rest = beyond ++ back := by
  rcases List.append_eq_append_iff.mp whole with ⟨after, rfl, split⟩ | ⟨more, rfl, _⟩
  · cases after with
    | nil => exact .inl ⟨[], by simp⟩
    | cons c after =>
        obtain ⟨rfl, behind⟩ := List.cons.inj split
        rcases List.append_eq_append_iff.mp behind with ⟨later, rfl, closing⟩ | ⟨more, rfl, _⟩
        · cases later with
          | nil => exact .inr (.inl ⟨inner, [], by simp, by simp⟩)
          | cons d beyond =>
              obtain ⟨rfl, last⟩ := List.cons.inj closing
              exact .inr (.inr ⟨beyond, rfl, last⟩)
        · exact .inr (.inl ⟨after, more, rfl, rfl⟩)
  · exact .inl ⟨more, rfl⟩

namespace Place

theorem textLevels_flat {front back : List Char} {place : Place}
    (flat : isFlat place.inside (front ++ back) = true) :
    (front.foldl step place).textLevels = place.textLevels := by
  induction front generalizing place with
  | nil => rfl
  | cons c rest ih =>
      rw [List.cons_append, isFlat] at flat
      rw [List.foldl_cons]
      by_cases isQuote : c = '"'
      · rw [if_pos isQuote] at flat
        rw [ih (by simpa [step, isQuote] using flat)]
        simp [step, isQuote]
      · rw [if_neg isQuote] at flat
        cases inside : place.inside with
        | true =>
            rw [inside, if_pos rfl] at flat
            rw [ih (by simpa [step, isQuote, inside] using flat)]
            simp [step, inside]
        | false =>
            rw [inside, if_neg Bool.false_ne_true] at flat
            simp only [Bool.and_eq_true, bne_iff_ne] at flat
            obtain ⟨⟨notOpening, notClosing⟩, flat⟩ := flat
            rw [ih (by simpa [step, isQuote, inside] using flat)]
            simp [step, notOpening, notClosing]

/-- Whether text is read in the arguments of a call, or where there is none around a place. -/
def readsTextIn (place : Place) (site : Option Script.CallSite) : Bool :=
  site.elim place.readsText fun site => capitals site.name = textFunction

theorem readsText_eq {first second : Place} (levels : first.textLevels = second.textLevels) :
    first.readsText = second.readsText := by
  rw [readsText, readsText, levels]

section

variable {lead : List Char} {place : Place} (flat : isFlat false lead = true)
  (outside : place.inside = false)
include flat outside

theorem textLevels_lead : (lead.foldl step place).textLevels = place.textLevels := by
  refine @textLevels_flat lead [] place ?_
  rw [List.append_nil, outside]
  exact flat

theorem inside_opening : ((lead ++ ['(']).foldl step place).inside = false := by
  rw [inside_foldl, endsQuoted_append, outside, endsQuoted_of_flat flat]
  rfl

/-- Behind a parenthesis text is read if the call that it opens reads it, or if it opens none and
text was read in front of it. -/
theorem readsText_opening (stops : StopsName place.behind) (offset : Nat) (inner : Script) :
    ((lead ++ ['(']).foldl step place).readsText =
      place.readsTextIn (Script.ownCall offset lead inner) := by
  have unquoted : (lead.foldl step place).inside = false := by
    rw [inside_foldl, outside]
    exact endsQuoted_of_flat flat
  have opens : ((lead ++ ['(']).foldl step place).readsText = (lead.foldl step place).opensText := by
    rw [List.foldl_append, List.foldl_cons, List.foldl_nil]
    simp [step, readsText, unquoted]
  have named : nameBehind? (lead.foldl step place).behind = Script.callName? lead := by
    rw [behind_foldl]
    exact nameBehind?_append_of_stops lead.reverse stops
  rw [opens, opensText, named, Script.ownCall, readsText_eq (textLevels_lead flat outside)]
  cases Script.callName? lead <;> rfl

theorem foldl_group {inner : Script} (matched : inner.Matched false) :
    ((lead ++ '(' :: (inner.chars ++ [')'])).foldl step place).inside = false ∧
      ((lead ++ '(' :: (inner.chars ++ [')'])).foldl step place).textLevels =
        place.textLevels := by
  have leadMatched : (Script.plain lead).Matched false := flat
  have checked : Script.check 0 false (lead ++ '(' :: (inner.chars ++ [')'])) = .ok () :=
    Script.check_group leadMatched.checked matched.checked []
  constructor
  · rw [inside_foldl, outside]
    exact Script.endsQuoted_of_check checked
  · exact @textLevels_foldl 0 _ place (outside.symm ▸ checked) [] _ rfl rfl

end

/-- Behind the start of a script text is read if the innermost call around that place reads it, and
if there is none, if it was read in front of the script. -/
theorem readsText_foldl {script : Script} (matched : script.Matched false) {place : Place}
    (outside : place.inside = false) (stops : StopsName place.behind) {front back : List Char}
    (whole : script.chars = front ++ back) (offset : Nat) :
    (front.foldl step place).readsText =
      place.readsTextIn (script.around? offset (offset + Script.byteSize front)) := by
  induction script generalizing place front back offset with
  | plain content =>
      have flat : isFlat place.inside (front ++ back) = true := by
        rw [outside, ← whole]
        exact matched
      exact readsText_eq (textLevels_flat flat)
  | group lead inner rest ihInner ihRest =>
      obtain ⟨flat, innerMatched, restMatched⟩ := matched
      rw [Script.chars, List.append_assoc, List.cons_append] at whole
      rcases exists_of_group_prefix whole with ⟨more, split⟩ | ⟨within, more, rfl, split⟩ |
        ⟨beyond, rfl, split⟩
      · -- the parenthesis is not open yet
        rw [Script.around?_before split]
        exact readsText_eq (textLevels_flat (outside.symm ▸ split ▸ flat))
      · -- what stands between the parentheses is a script of its own
        have start : (lead ++ '(' :: within).foldl step place =
            within.foldl step ((lead ++ ['(']).foldl step place) := by
          rw [← List.foldl_append, List.append_assoc, List.singleton_append]
        have apart : StopsName ((lead ++ ['(']).foldl step place).behind := by
          rw [behind_foldl, List.reverse_append]
          exact stopsName_opening _
        rw [start, ihInner innerMatched (inside_opening flat outside) apart split
          (offset + Script.byteSize lead + 1), Script.around?_within split]
        cases inner.around? (offset + Script.byteSize lead + 1)
          (offset + Script.byteSize lead + 1 + Script.byteSize within) with
        | none => exact readsText_opening flat outside stops offset inner
        | some site => rfl
      · -- the group is closed again
        have start : (lead ++ '(' :: (inner.chars ++ ')' :: beyond)).foldl step place =
            beyond.foldl step ((lead ++ '(' :: (inner.chars ++ [')'])).foldl step place) := by
          rw [← List.foldl_append]
          simp
        have apart : StopsName ((lead ++ '(' :: (inner.chars ++ [')'])).foldl step place).behind := by
          rw [behind_foldl]
          simpa using stopsName_closing _
        obtain ⟨unquoted, levels⟩ := foldl_group flat outside innerMatched
        rw [start, ihRest restMatched unquoted apart split
          (offset + Script.byteSize lead + 1 + inner.size + 1), readsTextIn, readsText_eq levels,
          Script.around?_beyond]
        rfl

theorem readsText_iff {script : Script} (matched : script.Matched false) {front back : List Char}
    (whole : script.chars = front ++ back) :
    (front.foldl step {}).readsText = true ↔
      ∃ site, Script.IsAround script.chars (Script.byteSize front) site ∧
        capitals site.name = textFunction := by
  rw [readsText_foldl matched rfl stopsName_nil whole 0, Nat.zero_add]
  simp only [Script.isAround_iff matched]
  cases script.around? 0 (Script.byteSize front) with
  | none => simp [readsTextIn, readsText]
  | some site => simp [readsTextIn]

end Place

end Worksheet
