import Mathlib
import Worksheet.Proofs.Bounded.Name
import Worksheet.Proofs.Bounded.Walk
import Worksheet.Proofs.Formula.Check
import Worksheet.Proofs.Script.Innermost

/-!
# Finding calls by offsets

A walk over the bytes of a text keeps the open parentheses on a stack, the last one first, with the
name in front of each. A call is found where its parenthesis closes, unless a call inside it has
been found before. The walk stays within bounds, and it finds the calls that the script of the text
lists.
-/

set_option autoImplicit false

namespace Worksheet

open Script (byteSize byteSize_append CallSite)

structure Opened where
  call : Option (Nat × List Char)
  opening : Nat
  containsCall : Bool

namespace Opened

def mark (calls : Bool) (opened : Opened) : Opened :=
  { opened with containsCall := opened.containsCall || calls }

def site? (opened : Opened) (closing : Nat) : Option CallSite :=
  if opened.containsCall then none
  else opened.call.map fun (start, name) => ⟨name, start, opened.opening, closing⟩

def read (text : List Char) (opening : Nat) : Bounded Opened := do
  match ← Bounded.reach (nameBefore? text opening) with
  | none => return ⟨none, opening, false⟩
  | some name =>
      let start ← Bounded.reach (minus? opening (byteSize name))
      return ⟨some (start, name), opening, false⟩

end Opened

structure Scan where
  opened : List Opened
  found : List CallSite

namespace Scan

def mark (calls : Bool) : List Opened → List Opened
  | [] => []
  | parent :: outer => parent.mark calls :: outer

def close (closing : Nat) (scan : Scan) : Bounded Scan :=
  match scan.opened with
  | [] => throw .unbalancedParentheses
  | last :: outer =>
      return ⟨mark (last.call.isSome || last.containsCall) outer,
        scan.found ++ (last.site? closing).toList⟩

def act (text : List Char) (index : Nat) (byte : UInt8) (scan : Scan) : Bounded Scan := do
  if byte = asciiByte '(' then
    let last ← Opened.read text index
    return { scan with opened := last :: scan.opened }
  else if byte = asciiByte ')' then scan.close index
  else return scan

def finish (inside : Bool) (scan : Scan) : Bounded (List CallSite) :=
  if inside then throw (.invalidExpression .unterminatedString)
  else if scan.opened.isEmpty then return scan.found
  else throw .unbalancedParentheses

def walker (text : List Char) : Walker Scan where
  note _ _ scan := return scan
  act := act text
  act_wide index byte scan wide := by
    rw [act, if_neg (Walker.ne_asciiByte_of_wide wide (by decide)),
      if_neg (Walker.ne_asciiByte_of_wide wide (by decide))]

end Scan

def scanCalls (text : List Char) : Bounded (List CallSite) := do
  let (inside, scan) ← (Scan.walker text).walk (bytes text) 0 false ⟨[], []⟩
  scan.finish inside

namespace Scan

variable {text front rest : List Char} {index : Nat} {scan : Scan}

theorem mark_false (opened : List Opened) : mark false opened = opened := by
  cases opened with
  | nil => rfl
  | cons parent outer => rw [mark, Opened.mark, Bool.or_false]

theorem mark_mark (first second : Bool) (opened : List Opened) :
    mark second (mark first opened) = mark (first || second) opened := by
  cases opened with
  | nil => rfl
  | cons parent outer => simp [mark, Opened.mark, Bool.or_assoc]

theorem length_mark (calls : Bool) (opened : List Opened) :
    (mark calls opened).length = opened.length := by
  cases opened <;> rfl

def openedBehind (front : List Char) (opening : Nat) : Opened :=
  ⟨(Script.callName? front).map fun name => (opening - byteSize name, name), opening, false⟩

theorem read_append {back : List Char} (text_eq : text = front ++ back)
    (index_eq : index = byteSize front) :
    Opened.read text index = pure (openedBehind front index) := by
  rw [Opened.read, nameBefore?_append text_eq index_eq, Bounded.reach_some, pure_bind, openedBehind,
    Script.callName?]
  cases named : nameBehind? front.reverse with
  | none => rfl
  | some name =>
      obtain ⟨whole, _⟩ := Script.lead_eq_of_callName? named
      have size : byteSize name ≤ index := by
        rw [index_eq, whole, byteSize_append]
        exact Nat.le_add_left _ _
      simp only [minus?_of_le size, Bounded.reach_some, pure_bind, Option.map_some]

theorem run_opening (text_eq : text = front ++ '(' :: rest) (index_eq : index = byteSize front) :
    (walker text).run index false scan ('(' :: rest) =
      (walker text).run (index + 1) false
        { scan with opened := openedBehind front index :: scan.opened } rest := by
  have single : '('.utf8Size = 1 := by decide
  have ascii : '('.toNat < 128 := by decide
  rw [Walker.run_cons false (by decide), Walker.step_of_quiet fun _ _ _ => rfl,
    if_pos ⟨rfl, by decide, ascii⟩, single]
  simp only [walker, act, if_true, read_append text_eq index_eq, pure_bind]

theorem run_closing :
    (walker text).run index false scan (')' :: rest) =
      scan.close index >>= fun scan => (walker text).run (index + 1) false scan rest := by
  have single : ')'.utf8Size = 1 := by decide
  have ascii : ')'.toNat < 128 := by decide
  have other : asciiByte ')' ≠ asciiByte '(' := by decide
  rw [Walker.run_cons false (by decide), Walker.step_of_quiet fun _ _ _ => rfl,
    if_pos ⟨rfl, by decide, ascii⟩, single]
  simp only [walker, act, if_true, other, if_false]

theorem run_idle {inside : Bool} {c : Char} (idle : inside = true ∨ c ≠ '(' ∧ c ≠ ')') :
    (walker text).run index inside scan (c :: rest) =
      (walker text).run (index + c.utf8Size) (if c = '"' then !inside else inside) scan rest := by
  have nothing : (walker text).step index inside c scan = pure scan := by
    refine Walker.step_idle (fun _ _ _ => rfl) fun outside ascii => ?_
    rcases idle with isInside | ⟨notOpening, notClosing⟩
    · rw [outside] at isInside
      cases isInside
    have opening : asciiByte c ≠ asciiByte '(' :=
      mt (Walker.asciiByte_inj ascii (by decide)).mp notOpening
    have closing : asciiByte c ≠ asciiByte ')' :=
      mt (Walker.asciiByte_inj ascii (by decide)).mp notClosing
    simp only [walker, act, opening, closing, if_false]
  rw [Walker.run, nothing, pure_bind]

theorem run_flat {inside : Bool} {lead : List Char} (flat : isFlat inside lead = true) :
    (walker text).run index inside scan (lead ++ rest) =
      (walker text).run (index + byteSize lead) false scan rest := by
  induction flat using isFlat_induction generalizing index with
  | nil => rfl
  | quote inside more _ ih =>
      rw [List.cons_append, run_idle (.inr (by decide)), if_pos rfl, ih, byteSize, Nat.add_assoc]
  | within c more notQuote _ ih =>
      rw [List.cons_append, run_idle (.inl rfl), if_neg notQuote, ih, byteSize, Nat.add_assoc]
  | without c more notQuote notOpening notClosing _ ih =>
      rw [List.cons_append, run_idle (.inr ⟨notOpening, notClosing⟩), if_neg notQuote, ih, byteSize,
        Nat.add_assoc]

theorem exists_run_of_step {c : Char} {inside inside' : Bool} {depth' : Nat}
    (step : Script.CheckStep c scan.opened.length inside depth' inside')
    (text_eq : text = front ++ c :: rest) (index_eq : index = byteSize front) :
    ∃ next : Scan, next.opened.length = depth' ∧
      (walker text).run index inside scan (c :: rest) =
        (walker text).run (index + c.utf8Size) inside' next rest := by
  generalize depth_eq : scan.opened.length = depth at step
  cases step with
  | quote => exact ⟨scan, depth_eq, by rw [run_idle (.inr (by decide)), if_pos rfl]⟩
  | within _ notQuote => exact ⟨scan, depth_eq, by rw [run_idle (.inl rfl), if_neg notQuote]⟩
  | opening =>
      refine ⟨_, ?_, run_opening text_eq index_eq⟩
      rw [List.length_cons, depth_eq]
  | closing =>
      obtain ⟨last, outer, opened⟩ := List.exists_cons_of_length_eq_add_one depth_eq
      rw [opened, List.length_cons] at depth_eq
      have one : ')'.utf8Size = 1 := by decide
      rw [run_closing, close, opened, one]
      exact ⟨_, (length_mark _ _).trans (Nat.succ.inj depth_eq), rfl⟩
  | without _ notQuote notOpening notClosing =>
      exact ⟨scan, depth_eq, by rw [run_idle (.inr ⟨notOpening, notClosing⟩), if_neg notQuote]⟩

/-- A walk over a text that fails the check fails as the check does. -/
theorem run_of_check_error {inside : Bool} {error : FormulaError} (text_eq : text = front ++ rest)
    (index_eq : index = byteSize front)
    (failed : Script.check scan.opened.length inside rest = .error error) :
    ((walker text).run index inside scan rest >>= fun (inside, scan) => scan.finish inside) =
      throw error := by
  induction rest generalizing front index inside scan with
  | nil =>
      change scan.finish inside = throw error
      rw [finish]
      rw [Script.check] at failed
      split at failed
      · rename_i isInside
        rw [if_pos isInside, ← Except.error.inj failed]
      · rename_i outside
        split at failed
        · cases failed
        · rename_i some
          rw [if_neg outside, if_neg (by simpa using some), ← Except.error.inj failed]
  | cons c rest ih =>
      rcases Script.exists_step_or_closing c scan.opened.length inside with
        ⟨depth', inside', step⟩ | ⟨rfl, none, rfl⟩
      · obtain ⟨next, depth_eq, onward⟩ := exists_run_of_step step text_eq index_eq
        rw [Script.check_of_step step, ← depth_eq] at failed
        have further : text = (front ++ [c]) ++ rest := by rw [text_eq, List.append_cons]
        have size : index + c.utf8Size = byteSize (front ++ [c]) := by rw [index_eq, byteSize_concat]
        rw [onward]
        exact ih further size failed
      · rw [none] at failed
        rw [run_closing, close, List.eq_nil_of_length_eq_zero none, ← Except.error.inj failed]
        rfl

/-! ## Scripts -/

theorem openedBehind_append {lead : List Char} (stops : StopsName front.reverse) :
    openedBehind (front ++ lead) index = openedBehind lead index := by
  rw [openedBehind, openedBehind, Script.callName?, Script.callName?, List.reverse_append,
    nameBehind?_append_of_stops _ stops]

theorem innermost_of_no_call {script : Script} (none : script.hasCall = false) (offset : Nat) :
    script.innermost offset = [] := by
  have listed : script.calls offset = [] := by
    by_contra some
    rw [(Script.hasCall_iff_calls script offset).mpr some] at none
    cases none
  rw [Script.innermost_eq_filter, listed]
  rfl

theorem innermost_group (lead : List Char) (inner last : Script) (offset : Nat) :
    inner.innermost (offset + byteSize lead + 1) ++
        ((((openedBehind lead (offset + byteSize lead)).mark inner.hasCall).site?
            (offset + byteSize lead + 1 + inner.size)).toList ++
          last.innermost (offset + byteSize lead + 1 + inner.size + 1)) =
      (Script.group lead inner last).innermost offset := by
  rw [← List.append_assoc, Script.innermost]
  congr 1
  cases nested : inner.hasCall with
  | true => simp [Opened.mark, Opened.site?]
  | false =>
      rw [innermost_of_no_call nested]
      cases named : Script.callName? lead <;>
        simp [Opened.mark, Opened.site?, openedBehind, named]

/-- A walk over a script finds the calls of the script, and takes note of whether there are any. -/
theorem run_script {script : Script} {inside : Bool} (matched : script.Matched inside)
    (text_eq : text = front ++ (script.chars ++ rest)) (index_eq : index = byteSize front)
    (stops : StopsName front.reverse) :
    (walker text).run index inside scan (script.chars ++ rest) =
      (walker text).run (index + script.size) false
        ⟨mark script.hasCall scan.opened, scan.found ++ script.innermost index⟩ rest := by
  induction script generalizing front rest index inside scan with
  | plain content =>
      rw [Script.chars, run_flat matched, Script.hasCall, mark_false, Script.innermost,
        List.append_nil]
      rfl
  | group lead inner last ihInner ihLast =>
      obtain ⟨flat, innerMatched, lastMatched⟩ := matched
      have opens : text = (front ++ lead) ++ '(' :: (inner.chars ++ ')' :: (last.chars ++ rest)) := by
        simp [text_eq, Script.chars]
      have within : text =
          (front ++ lead ++ ['(']) ++ (inner.chars ++ ')' :: (last.chars ++ rest)) := by
        simp [text_eq, Script.chars]
      have beyond : text =
          (front ++ (lead ++ '(' :: (inner.chars ++ [')']))) ++ (last.chars ++ rest) := by
        simp [text_eq, Script.chars]
      have opening : index + byteSize lead = byteSize (front ++ lead) := by
        rw [index_eq, byteSize_append]
      have first : index + byteSize lead + 1 = byteSize (front ++ lead ++ ['(']) := by
        rw [byteSize_append, ← opening]
        rfl
      have next : index + byteSize lead + 1 + inner.size + 1 =
          byteSize (front ++ (lead ++ '(' :: (inner.chars ++ [')']))) := by
        rw [index_eq, byteSize_append, Script.byteSize_closed, byteSize]
        omega
      have stopsInner : StopsName (front ++ lead ++ ['(']).reverse := by
        rw [List.reverse_append]
        exact stopsName_cons (by decide) _
      have stopsLast : StopsName (front ++ (lead ++ '(' :: (inner.chars ++ [')']))).reverse := by
        simpa using stopsName_cons (by decide) _
      have assoc : (Script.group lead inner last).chars ++ rest =
          lead ++ '(' :: (inner.chars ++ ')' :: (last.chars ++ rest)) := by
        simp [Script.chars]
      -- the lead, the opening, what it encloses, the closing and the rest, in this order
      rw [assoc, run_flat flat, run_opening opens opening, openedBehind_append stops,
        ihInner innerMatched within first stopsInner, run_closing, mark, close, pure_bind,
        ihLast lastMatched beyond next stopsLast, mark_mark, Script.size, Script.hasCall,
        ← innermost_group]
      simp only [Opened.mark, openedBehind, Option.isSome_map, Bool.false_or, List.append_assoc,
        Nat.add_assoc]

end Scan

theorem scanCalls_eq (text : List Char) :
    scanCalls text = Bounded.within (Script.innermost 0 <$> Script.ofChars text) := by
  rw [scanCalls, Walker.walk_text]
  cases checked : Script.check 0 false text with
  | error error =>
      rw [Script.innermost_eq_error.mpr checked]
      exact @Scan.run_of_check_error text [] text 0 ⟨[], []⟩ false error rfl rfl checked
  | ok _ =>
      obtain ⟨script, read⟩ := Script.ofChars_of_check checked
      obtain ⟨matched, rfl⟩ := Script.ofChars_eq_ok.mp read
      have run := @Scan.run_script script.chars [] [] 0 ⟨[], []⟩ script false matched
        (by rw [List.nil_append, List.append_nil]) rfl stopsName_nil
      rw [List.append_nil] at run
      rw [run, read]
      rfl

end Worksheet
