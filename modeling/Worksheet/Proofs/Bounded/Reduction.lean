import Mathlib
import Worksheet.Proofs.Bounded.Arguments
import Worksheet.Proofs.Bounded.Calls
import Worksheet.Proofs.Script.Splice

/-!
# Replacing calls by offsets

A pass finds the calls of a text once and then replaces them from the last to the first, each by its
offsets. What stands in front of a call stays where it is while the calls behind it are replaced, so
the offsets of the calls that are left stay at characters of the text, however long the literals are.
The pass stays within bounds, and it does what the pass over the script does.
-/

set_option autoImplicit false

namespace Worksheet.Script

/-- The offsets at which a call cuts its text: where its name begins, and in front of and behind each
of its parentheses. -/
def CallSite.offsets (site : CallSite) : List Nat :=
  [site.start, site.opening, site.opening + 1, site.closing, site.closing + 1]

def CallSite.fits (text : List Char) (site : CallSite) : Bool :=
  site.offsets.all (isBoundary text)

abbrev CallValueAt := List Char → List (List Char) → Bounded Value

/-- Replaces the calls at the given sites, the last one first. All that are left have to fit the
text as it is then. -/
def spliceAll (call : CallValueAt) (text : List Char) : List CallSite → Bounded (List Char)
  | [] => return text
  | site :: earlier => do
      Bounded.reach (guard ((site :: earlier).all (CallSite.fits text)))
      let inner ← Bounded.reach (slice? text (site.opening + 1) site.closing)
      let value ← call site.name (← splitArguments inner)
      let replaced ← Bounded.reach
        (replaceSlice? text site.start (site.closing + 1) value.literal)
      spliceAll call replaced earlier

def reduceAt (call : CallValueAt) (limit : Nat) : Nat → List Char → Bounded (List Char)
  | 0, text => do
      if (← scanCalls text).isEmpty then return text else throw (.tooComplex limit)
  | passes + 1, text => do
      let sites ← scanCalls text
      if sites.isEmpty then return text
      else reduceAt call limit passes (← spliceAll call text sites.reverse)

theorem isBoundary_at {text front : List Char} {offset : Nat} (begins : front <+: text)
    (offset_eq : offset = byteSize front) : isBoundary text offset = true := by
  obtain ⟨back, rfl⟩ := begins
  exact isBoundary_iff.mpr ⟨front, back, rfl, offset_eq.symm⟩

theorem CallSite.IsIn.fits {site : CallSite} {text front part back before inner after : List Char}
    {offset : Nat} (isIn : site.IsIn offset part before inner after)
    (text_eq : text = front ++ (part ++ back)) (offset_eq : offset = byteSize front) :
    site.fits text = true := by
  have single : '('.utf8Size = 1 ∧ ')'.utf8Size = 1 := by decide
  have whole : text =
      front ++ (before ++ (site.name ++ '(' :: (inner ++ ')' :: (after ++ back)))) := by
    simp [text_eq, isIn.text_eq]
  have start : site.start = byteSize (front ++ before) := by
    rw [isIn.start_eq, offset_eq, byteSize_append]
  have opening : site.opening = byteSize (front ++ before ++ site.name) := by
    rw [isIn.opening_eq, start, byteSize_append _ site.name]
  have within : site.opening + 1 = byteSize (front ++ before ++ site.name ++ ['(']) := by
    rw [opening, byteSize_append _ ['('], byteSize, byteSize, single.1]
  have closing : site.closing = byteSize (front ++ before ++ site.name ++ ['('] ++ inner) := by
    rw [isIn.closing_eq, within, byteSize_append _ inner]
  have beyond : site.closing + 1 =
      byteSize (front ++ before ++ site.name ++ ['('] ++ inner ++ [')']) := by
    rw [closing, byteSize_append _ [')'], byteSize, byteSize, single.2]
  simp only [CallSite.fits, offsets, List.all_cons, List.all_nil, Bool.and_true, Bool.and_eq_true]
  refine ⟨isBoundary_at ?_ start, isBoundary_at ?_ opening,
    isBoundary_at ?_ within, isBoundary_at ?_ closing, isBoundary_at ?_ beyond⟩
  · exact ⟨site.name ++ '(' :: (inner ++ ')' :: (after ++ back)), by simp [whole]⟩
  · exact ⟨'(' :: (inner ++ ')' :: (after ++ back)), by simp [whole]⟩
  · exact ⟨inner ++ ')' :: (after ++ back), by simp [whole]⟩
  · exact ⟨')' :: (after ++ back), by simp [whole]⟩
  · exact ⟨after ++ back, by simp [whole]⟩

theorem CallSite.fits_append {site : CallSite} {front : List Char} (fits : site.fits front = true)
    (back : List Char) : site.fits (front ++ back) = true := by
  rw [CallSite.fits, List.all_eq_true] at fits ⊢
  exact fun offset member => isBoundary_append (fits offset member) back

theorem fits_of_mem_innermost {script : Script} (matched : script.Matched false)
    {text front back : List Char} (text_eq : text = front ++ (script.chars ++ back)) {offset : Nat}
    (offset_eq : offset = byteSize front) {site : CallSite}
    (member : site ∈ script.innermost offset) : site.fits text = true := by
  rw [innermost_eq_filter] at member
  obtain ⟨call, listed, rfl⟩ := List.mem_map.mp member
  obtain ⟨_, before, after, isIn⟩ := isIn_of_mem_calls matched (List.mem_of_mem_filter listed)
  exact isIn.fits text_eq offset_eq

theorem innermost_group_append (lead : List Char) (inner rest : Script) (offset : Nat) :
    (group lead inner rest).innermost offset =
      (group lead inner (plain [])).innermost offset ++
        rest.innermost (offset + byteSize lead + 1 + inner.size + 1) := by
  simp only [innermost, List.append_nil]

theorem innermost_group_of_call {inner : Script} (nested : inner.hasCall = true)
    (lead : List Char) (offset : Nat) :
    (group lead inner (plain [])).innermost offset =
      inner.innermost (offset + byteSize lead + 1) := by
  simp only [innermost, if_pos nested, List.append_nil]

theorem innermost_group_of_no_call {inner : Script} (leaf : ¬ inner.hasCall = true)
    (lead : List Char) (offset : Nat) :
    (group lead inner (plain [])).innermost offset =
      ((callName? lead).map fun name => (⟨name, offset + byteSize lead - byteSize name,
        offset + byteSize lead, offset + byteSize lead + 1 + inner.size⟩ : CallSite)).toList := by
  simp only [innermost, if_neg leaf, List.append_nil]
  cases callName? lead <;> rfl

section Pass

variable {call : CallValue} (finite : ReturnsFinite call)

abbrev CallValue.within (call : CallValue) : CallValueAt :=
  fun name arguments => Bounded.within (call name arguments)

/-- Replacing the last of the calls that are left, which has no call inside. -/
theorem spliceAll_named {lead name : List Char} (named : callName? lead = some name)
    {inner : Script} {text front back : List Char}
    (text_eq : text = front ++ (lead ++ '(' :: (inner.chars ++ ')' :: back))) {offset : Nat}
    (offset_eq : offset = byteSize front) {site : CallSite}
    (site_eq : site = ⟨name, offset + byteSize lead - byteSize name, offset + byteSize lead,
      offset + byteSize lead + 1 + inner.size⟩) {earlier : List CallSite}
    (fit : ∀ other ∈ site :: earlier, other.fits text = true) :
    spliceAll call.within text (site :: earlier) =
      (Bounded.within (call name (Arguments.split inner.chars)) >>= fun value =>
        spliceAll call.within (front ++ (beforeName lead name ++ value.literal) ++ back)
          earlier) := by
  have single : '('.utf8Size = 1 ∧ ')'.utf8Size = 1 := by decide
  have allFit : (site :: earlier).all (CallSite.fits text) = true := List.all_eq_true.mpr fit
  obtain ⟨whole, _⟩ := lead_eq_of_callName? named
  have size : byteSize lead = byteSize (beforeName lead name) + byteSize name := by
    rw [← byteSize_append, ← whole]
  have within : slice? text (site.opening + 1) site.closing = some inner.chars := by
    refine @slice?_append _ (front ++ (lead ++ ['('])) inner.chars (')' :: back) _ _ ?_ ?_ ?_
    · simp [text_eq]
    · simp only [site_eq, offset_eq, byteSize_append, byteSize, single.1]
      omega
    · simp only [site_eq, offset_eq, byteSize_append, byteSize, byteSize_chars, single.1]
      omega
  have replaced (literal : List Char) :
      replaceSlice? text site.start (site.closing + 1) literal =
        some ((front ++ beforeName lead name) ++ literal ++ back) := by
    refine @replaceSlice?_append _ (front ++ beforeName lead name)
      (name ++ '(' :: (inner.chars ++ [')'])) back _ _ ?_ ?_ ?_ _
    · conv_lhs => rw [text_eq, whole]
      simp
    · simp only [site_eq, offset_eq, byteSize_append, size]
      omega
    · simp only [site_eq, offset_eq, byteSize_append, byteSize, byteSize_chars, size, single.1,
        single.2]
      omega
  have called : site.name = name := by rw [site_eq]
  rw [spliceAll, allFit, within, called]
  simp only [guard, if_true, Option.pure_def, Bounded.reach_some, pure_bind, splitArguments_eq,
    replaced, List.append_assoc]

include finite

/-- Replacing the calls of a script that is a part of a text, together with calls in front of it. -/
theorem spliceAll_script {script : Script} (matched : script.Matched false)
    {text front back : List Char} (text_eq : text = front ++ (script.chars ++ back)) {offset : Nat}
    (offset_eq : offset = byteSize front) {earlier : List CallSite}
    (fit : ∀ site ∈ earlier, site.fits front = true) :
    spliceAll call.within text ((script.innermost offset).reverse ++ earlier) =
      (Bounded.within (script.pass call) >>= fun passed =>
        spliceAll call.within (front ++ (passed.chars ++ back)) earlier) := by
  induction script generalizing text front back offset earlier with
  | plain content =>
      rw [text_eq]
      rfl
  | group lead inner rest ihInner ihRest =>
      obtain ⟨flat, innerMatched, restMatched⟩ := matched
      have alone : (group lead inner (plain [])).Matched false := ⟨flat, innerMatched, rfl⟩
      -- The text up to the end of the group stays as it is while the calls behind it are replaced.
      obtain ⟨done, done_eq⟩ : ∃ done, done = front ++ (lead ++ '(' :: (inner.chars ++ [')'])) :=
        ⟨_, rfl⟩
      have lower : text = done ++ (rest.chars ++ back) := by simp [text_eq, done_eq, chars]
      have beyond : offset + byteSize lead + 1 + inner.size + 1 = byteSize done := by
        rw [done_eq, offset_eq, byteSize_append, byteSize_closed, byteSize]
        omega
      have fitDone :
          ∀ site ∈ ((group lead inner (plain [])).innermost offset).reverse ++ earlier,
            site.fits done = true := by
        intro site member
        rcases List.mem_append.mp member with own | before
        · exact @fits_of_mem_innermost _ alone done front [] (by simp [done_eq, chars]) offset
            offset_eq site (List.mem_reverse.mp own)
        · rw [done_eq]
          exact CallSite.fits_append (fit site before) _
      rw [innermost_group_append, List.reverse_append, List.append_assoc,
        ihRest restMatched lower beyond fitDone, pass, Bounded.within_bind, bind_assoc]
      refine bind_congr fun passedRest => ?_
      by_cases nested : inner.hasCall = true
      · have opening : offset + byteSize lead + 1 = byteSize (front ++ (lead ++ ['('])) := by
          rw [offset_eq, byteSize_append, byteSize_append, ← Nat.add_assoc]
          rfl
        have upper : done ++ (passedRest.chars ++ back) =
            (front ++ (lead ++ ['('])) ++ (inner.chars ++ ')' :: (passedRest.chars ++ back)) := by
          simp [done_eq]
        rw [innermost_group_of_call nested, if_pos nested, ihInner innerMatched upper opening
          fun site member => CallSite.fits_append (fit site member) _, Bounded.within_bind,
          bind_assoc]
        refine bind_congr fun passedInner => ?_
        rw [Outcome.pure_eq, Bounded.within_ok, pure_bind]
        simp [chars]
      · rw [innermost_group_of_no_call nested] at fitDone ⊢
        rw [if_neg nested]
        cases named : callName? lead with
        | none =>
            rw [Outcome.pure_eq, Bounded.within_ok, pure_bind]
            simp [done_eq, chars]
        | some name =>
            have upper : done ++ (passedRest.chars ++ back) =
                front ++ (lead ++ '(' :: (inner.chars ++ ')' :: (passedRest.chars ++ back))) := by
              simp [done_eq]
            simp only [named, Option.map_some, Option.toList_some, List.reverse_singleton,
              List.singleton_append] at fitDone ⊢
            have fitAll := fun site member => CallSite.fits_append (fitDone site member)
              (passedRest.chars ++ back)
            rw [spliceAll_named named upper offset_eq rfl fitAll]
            cases called : call name (Arguments.split inner.chars) with
            | error error => rfl
            | ok value =>
                change spliceAll call.within _ earlier = spliceAll call.within _ earlier
                rw [chars_splice (finite _ _ _ called)]
                simp

end Pass

theorem scanCalls_chars {script : Script} (matched : script.Matched false) :
    scanCalls script.chars = pure (script.innermost 0) := by
  rw [scanCalls_eq, ofChars_eq_ok.mpr ⟨matched, rfl⟩]
  rfl

theorem isEmpty_innermost (script : Script) (offset : Nat) :
    (script.innermost offset).isEmpty = !script.hasCall := by
  cases calls : script.hasCall with
  | false => rw [Scan.innermost_of_no_call calls, List.isEmpty_nil, Bool.not_false]
  | true => simpa using innermost_ne_nil calls offset

theorem reduceAt_chars {call : CallValue} (finite : ReturnsFinite call) (limit : Nat) {passes : Nat}
    {script : Script} (matched : script.Matched false) :
    reduceAt call.within limit passes script.chars =
      Bounded.within (chars <$> script.reduce call limit passes) := by
  induction passes generalizing script with
  | zero =>
      rw [reduceAt, scanCalls_chars matched, pure_bind, isEmpty_innermost, reduce]
      cases script.hasCall <;> rfl
  | succ passes ih =>
      rw [reduceAt, scanCalls_chars matched, pure_bind, isEmpty_innermost, reduce]
      cases calls : script.hasCall with
      | false => rfl
      | true =>
          have spliced := @spliceAll_script call finite script matched script.chars [] []
            (by rw [List.nil_append, List.append_nil]) 0 rfl [] (by simp)
          rw [List.append_nil] at spliced
          rw [Bool.not_true, if_neg Bool.false_ne_true, if_pos rfl, spliced, bind_assoc]
          cases passed : script.pass call with
          | error error => rfl
          | ok next =>
              have onward := ih (matched_pass finite matched passed)
              simpa [Bounded.within_ok, spliceAll] using onward

theorem reduceAt_eq {call : CallValue} (finite : ReturnsFinite call) (limit : Nat)
    (text : List Char) :
    reduceAt call.within limit limit text = Bounded.within (reduceText call limit text) := by
  rw [reduceText]
  cases read : ofChars text with
  | error error =>
      have failed : scanCalls text = throw error := by
        rw [scanCalls_eq, read]
        rfl
      cases limit <;> rw [reduceAt, failed] <;> rfl
  | ok script =>
      obtain ⟨matched, rfl⟩ := ofChars_eq_ok.mp read
      rw [reduceAt_chars finite limit matched]
      rfl

end Worksheet.Script
