import Mathlib
import Worksheet.Script.Basic

/-!
# Matched scripts

A text is flat when no parenthesis stands outside its literals and its last literal ends. A script
is matched when all its plain texts are flat. The matched scripts are exactly what reading a text
gives, and reading undoes `Script.chars`.
-/

set_option autoImplicit false

namespace Worksheet

/-- Tells whether a text has no parenthesis outside literals and ends outside them; the flag tells
where it starts. -/
def isFlat (inside : Bool) : List Char → Bool
  | [] => !inside
  | c :: rest =>
      if c = '"' then isFlat (!inside) rest
      else if inside then isFlat inside rest
      else c != '(' && c != ')' && isFlat inside rest

theorem isFlat_quote (inside : Bool) (rest : List Char) :
    isFlat inside ('"' :: rest) = isFlat (!inside) rest := by
  simp [isFlat]

theorem isFlat_within {c : Char} (notQuote : c ≠ '"') (rest : List Char) :
    isFlat true (c :: rest) = isFlat true rest := by
  simp [isFlat, notQuote]

theorem isFlat_without {c : Char} (notQuote : c ≠ '"') (notOpening : c ≠ '(')
    (notClosing : c ≠ ')') (rest : List Char) : isFlat false (c :: rest) = isFlat false rest := by
  simp [isFlat, notQuote, notOpening, notClosing]

/-- A flat text is empty, or a quote, a character of a literal or one that is no parenthesis stands
in front of a flat text. -/
@[elab_as_elim]
theorem isFlat_induction {motive : (inside : Bool) → (text : List Char) →
      isFlat inside text = true → Prop}
    (nil : motive false [] rfl)
    (quote : ∀ inside rest flat, motive (!inside) rest flat →
      motive inside ('"' :: rest) ((isFlat_quote inside rest).trans flat))
    (within : ∀ c rest notQuote flat, motive true rest flat →
      motive true (c :: rest) ((isFlat_within notQuote rest).trans flat))
    (without : ∀ c rest notQuote notOpening notClosing flat, motive false rest flat →
      motive false (c :: rest) ((isFlat_without notQuote notOpening notClosing rest).trans flat))
    {inside : Bool} {text : List Char} (flat : isFlat inside text = true) :
    motive inside text flat := by
  induction text generalizing inside with
  | nil =>
      cases inside with
      | false => exact nil
      | true => simp [isFlat] at flat
  | cons c rest ih =>
      by_cases isQuote : c = '"'
      · subst isQuote
        exact quote inside rest (by simpa [isFlat] using flat) (ih _)
      · cases inside with
        | true => exact within c rest isQuote (by simpa [isFlat, isQuote] using flat) (ih _)
        | false =>
            have parts := flat
            simp only [isFlat, if_neg isQuote, Bool.false_eq_true, if_false, Bool.and_eq_true,
              bne_iff_ne, ne_eq] at parts
            exact without c rest isQuote parts.1.1 parts.1.2 parts.2 (ih _)

theorem isFlat_append {inside : Bool} {first : List Char} (flat : isFlat inside first = true)
    (second : List Char) : isFlat inside (first ++ second) = isFlat false second := by
  induction flat using isFlat_induction with
  | nil => rfl
  | quote inside rest _ ih => rw [List.cons_append, isFlat_quote, ih]
  | within c rest notQuote _ ih => rw [List.cons_append, isFlat_within notQuote, ih]
  | without c rest notQuote notOpening notClosing _ ih =>
      rw [List.cons_append, isFlat_without notQuote notOpening notClosing, ih]

def IsPlain (text : List Char) : Prop :=
  ∀ c ∈ text, c ≠ '"' ∧ c ≠ '(' ∧ c ≠ ')'

theorem isFlat_of_plain {text : List Char} (plain : IsPlain text) : isFlat false text = true := by
  induction text with
  | nil => rfl
  | cons c rest ih =>
      obtain ⟨notQuote, notOpening, notClosing⟩ := plain c List.mem_cons_self
      rw [isFlat_without notQuote notOpening notClosing]
      exact ih fun c member => plain c (List.mem_cons_of_mem _ member)

theorem endsQuoted_append (inside : Bool) (first second : List Char) :
    endsQuoted inside (first ++ second) = endsQuoted (endsQuoted inside first) second := by
  induction first generalizing inside with
  | nil => rfl
  | cons c rest ih => exact ih _

theorem endsQuoted_of_flat {inside : Bool} {text : List Char} (flat : isFlat inside text = true) :
    endsQuoted inside text = false := by
  induction flat using isFlat_induction with
  | nil => rfl
  | quote inside rest _ ih => simpa [endsQuoted] using ih
  | within c rest notQuote _ ih => simpa [endsQuoted, notQuote] using ih
  | without c rest notQuote _ _ _ ih => simpa [endsQuoted, notQuote] using ih

theorem endsQuoted_plain (inside : Bool) {text : List Char} (plain : IsPlain text) :
    endsQuoted inside text = inside := by
  induction text with
  | nil => rfl
  | cons c rest ih =>
      obtain ⟨notQuote, _, _⟩ := plain c List.mem_cons_self
      simp only [endsQuoted, notQuote, if_false]
      exact ih fun c member => plain c (List.mem_cons_of_mem _ member)

namespace Script

/-- Every plain text of the script is flat; the flag tells where the first one starts. -/
def Matched (inside : Bool) : Script → Prop
  | plain content => isFlat inside content = true
  | group lead inner rest =>
      isFlat inside lead = true ∧ inner.Matched false ∧ rest.Matched false

def append : Script → Script → Script
  | plain content, last => last.prepend content
  | group lead inner rest, last => group lead inner (rest.append last)

theorem chars_prepend (text : List Char) (script : Script) :
    (script.prepend text).chars = text ++ script.chars := by
  cases script <;> simp [prepend, chars]

theorem prepend_prepend (first second : List Char) (script : Script) :
    (script.prepend second).prepend first = script.prepend (first ++ second) := by
  cases script <;> simp [prepend]

theorem prepend_nil (script : Script) : script.prepend [] = script := by
  cases script <;> rfl

theorem append_plain_nil (script : Script) : script.append (plain []) = script := by
  induction script with
  | plain content => simp [append, prepend]
  | group lead inner rest _ ihRest => rw [append, ihRest]

theorem Matched.prepend {inside : Bool} {text : List Char} {script : Script}
    (flat : isFlat inside text = true) (matched : script.Matched false) :
    (script.prepend text).Matched inside := by
  cases script with
  | plain content => exact (isFlat_append flat content).trans matched
  | group lead inner rest => exact ⟨(isFlat_append flat lead).trans matched.1, matched.2⟩

/-! ## Checking -/

/-- What one character does to the open parentheses and to the literal it may stand in, in a text that
passes the check. -/
inductive CheckStep : Char → Nat → Bool → Nat → Bool → Prop
  | quote (depth : Nat) (inside : Bool) : CheckStep '"' depth inside depth (!inside)
  | within {c : Char} (depth : Nat) (notQuote : c ≠ '"') : CheckStep c depth true depth true
  | opening (depth : Nat) : CheckStep '(' depth false (depth + 1) false
  | closing (depth : Nat) : CheckStep ')' (depth + 1) false depth false
  | without {c : Char} (depth : Nat) (notQuote : c ≠ '"') (notOpening : c ≠ '(')
      (notClosing : c ≠ ')') : CheckStep c depth false depth false

theorem CheckStep.deeper {c : Char} {depth depth' : Nat} {inside inside' : Bool}
    (step : CheckStep c depth inside depth' inside') (outer : Nat) :
    CheckStep c (depth + outer) inside (depth' + outer) inside' := by
  cases step with
  | quote => exact .quote _ _
  | within _ notQuote => exact .within _ notQuote
  | opening =>
      rw [Nat.add_right_comm]
      exact .opening _
  | closing =>
      rw [Nat.add_right_comm]
      exact .closing _
  | without _ notQuote notOpening notClosing => exact .without _ notQuote notOpening notClosing

theorem check_nil {depth : Nat} {inside : Bool} (checked : check depth inside [] = .ok ()) :
    depth = 0 ∧ inside = false := by
  cases inside with
  | true => cases checked
  | false =>
      rw [check, if_neg Bool.false_ne_true] at checked
      split at checked
      · exact ⟨‹_›, rfl⟩
      · cases checked

theorem check_of_step {c : Char} {depth depth' : Nat} {inside inside' : Bool}
    (step : CheckStep c depth inside depth' inside') (rest : List Char) :
    check depth inside (c :: rest) = check depth' inside' rest := by
  cases step with
  | quote => simp [check]
  | within _ notQuote => simp [check, notQuote]
  | opening => rfl
  | closing => rfl
  | without _ notQuote notOpening notClosing => simp [check, notQuote, notOpening, notClosing]

theorem exists_step_or_closing (c : Char) (depth : Nat) (inside : Bool) :
    (∃ depth' inside', CheckStep c depth inside depth' inside') ∨
      c = ')' ∧ depth = 0 ∧ inside = false := by
  by_cases isQuote : c = '"'
  · subst isQuote
    exact .inl ⟨_, _, .quote depth inside⟩
  cases inside with
  | true => exact .inl ⟨_, _, .within depth isQuote⟩
  | false =>
      by_cases isOpening : c = '('
      · subst isOpening
        exact .inl ⟨_, _, .opening depth⟩
      by_cases isClosing : c = ')'
      · subst isClosing
        cases depth with
        | zero => exact .inr ⟨rfl, rfl, rfl⟩
        | succ depth => exact .inl ⟨_, _, .closing depth⟩
      · exact .inl ⟨_, _, .without depth isQuote isOpening isClosing⟩

theorem exists_step_of_check {c : Char} {depth : Nat} {inside : Bool} {rest : List Char}
    (checked : check depth inside (c :: rest) = .ok ()) :
    ∃ depth' inside', CheckStep c depth inside depth' inside' ∧ check depth' inside' rest = .ok () := by
  rcases exists_step_or_closing c depth inside with ⟨depth', inside', step⟩ | ⟨rfl, rfl, rfl⟩
  · exact ⟨depth', inside', step, (check_of_step step rest).symm.trans checked⟩
  · cases checked

theorem check_flat {depth : Nat} {inside : Bool} {text : List Char}
    (flat : isFlat inside text = true) (suffix : List Char) :
    check depth inside (text ++ suffix) = check depth false suffix := by
  induction flat using isFlat_induction with
  | nil => rfl
  | quote inside rest _ ih => simpa [check] using ih
  | within c rest notQuote _ ih => simpa [check, notQuote] using ih
  | without c rest notQuote notOpening notClosing _ ih =>
      simpa [check, notQuote, notOpening, notClosing] using ih

theorem check_plain (depth : Nat) (inside : Bool) {first : List Char} (plain : IsPlain first)
    (second : List Char) :
    check depth inside (first ++ second) = check depth inside second := by
  induction first with
  | nil => rfl
  | cons c rest ih =>
      obtain ⟨notQuote, notOpening, notClosing⟩ := plain c List.mem_cons_self
      simp only [List.cons_append, check, notQuote, notOpening, notClosing, if_false, ite_self]
      exact ih fun c member => plain c (List.mem_cons_of_mem _ member)

theorem check_of_plain {text : List Char} (plain : IsPlain text) : check 0 false text = .ok () := by
  rw [← List.append_nil text, check_plain 0 false plain]
  rfl

theorem check_append_of_idle {second : List Char}
    (idle : ∀ depth inside, check depth inside second = check depth inside []) (depth : Nat)
    (inside : Bool) (first : List Char) :
    check depth inside (first ++ second) = check depth inside first := by
  induction first generalizing depth inside with
  | nil => exact idle depth inside
  | cons c rest ih => simp only [List.cons_append, check, ih]

theorem check_chars {depth : Nat} {inside : Bool} {script : Script}
    (matched : script.Matched inside) (suffix : List Char) :
    check depth inside (script.chars ++ suffix) = check depth false suffix := by
  induction script generalizing depth inside suffix with
  | plain content => exact check_flat matched suffix
  | group lead inner rest ihInner ihRest =>
      obtain ⟨flat, innerMatched, restMatched⟩ := matched
      have opening : check depth false ('(' :: (inner.chars ++ ')' :: (rest.chars ++ suffix))) =
          check (depth + 1) false (inner.chars ++ ')' :: (rest.chars ++ suffix)) := rfl
      have closing : check (depth + 1) false (')' :: (rest.chars ++ suffix)) =
          check depth false (rest.chars ++ suffix) := rfl
      simp only [chars, List.append_assoc, List.cons_append]
      rw [check_flat flat, opening, ihInner innerMatched, closing, ihRest restMatched]

theorem Matched.checked {script : Script} {inside : Bool} (matched : script.Matched inside) :
    check 0 inside script.chars = .ok () := by
  rw [← List.append_nil script.chars, check_chars matched]
  rfl

theorem endsQuoted_chars {script : Script} {inside : Bool} (matched : script.Matched inside) :
    endsQuoted inside script.chars = false := by
  induction script generalizing inside with
  | plain content => exact endsQuoted_of_flat matched
  | group lead inner rest ihInner ihRest =>
      obtain ⟨flat, innerMatched, restMatched⟩ := matched
      simp only [Script.chars, List.append_assoc, List.cons_append]
      rw [endsQuoted_append, endsQuoted_of_flat flat]
      change endsQuoted false (inner.chars ++ ')' :: rest.chars) = false
      rw [endsQuoted_append, ihInner innerMatched]
      exact ihRest restMatched

/-! ## Reading -/

def appendFirst (script : Script) : List Script → List Script
  | [] => []
  | first :: outer => script.append first :: outer

theorem appendFirst_plain_nil (scripts : List Script) : appendFirst (plain []) scripts = scripts := by
  cases scripts with
  | nil => rfl
  | cons first outer => rw [appendFirst, append, prepend_nil]

theorem prependFirst_appendFirst (c : Char) (text : List Char) (scripts : List Script) :
    prependFirst c (appendFirst (plain text) scripts) = appendFirst (plain (c :: text)) scripts := by
  cases scripts with
  | nil => rfl
  | cons first outer => simp [appendFirst, prependFirst, append, prepend_prepend]

theorem levels_flat {inside : Bool} {text : List Char} (flat : isFlat inside text = true)
    (suffix : List Char) :
    levels inside (text ++ suffix) = appendFirst (plain text) (levels false suffix) := by
  induction flat using isFlat_induction with
  | nil => rw [List.nil_append, appendFirst_plain_nil]
  | quote inside rest _ ih => simp [levels, ih, prependFirst_appendFirst]
  | within c rest notQuote _ ih => simp [levels, notQuote, ih, prependFirst_appendFirst]
  | without c rest notQuote notOpening notClosing _ ih =>
      simp [levels, notQuote, notOpening, notClosing, ih, prependFirst_appendFirst]

theorem levels_ne_nil (inside : Bool) (text : List Char) : levels inside text ≠ [] := by
  induction text generalizing inside with
  | nil => simp [levels]
  | cons c rest ih =>
      have nonempty (inside : Bool) : prependFirst c (levels inside rest) ≠ [] := by
        cases found : levels inside rest with
        | nil => exact absurd found (ih inside)
        | cons first outer => simp [prependFirst]
      unfold levels
      split
      · exact nonempty _
      · split
        · exact nonempty _
        · split
          · split
            · simp
            · exact nonempty _
          · split
            · simp
            · exact nonempty _

theorem levels_opening {text : List Char} {inner outer : Script} {waiting : List Script}
    (read : levels false text = inner :: outer :: waiting) :
    levels false ('(' :: text) = group [] inner outer :: waiting := by
  simp [levels, read]

theorem levels_chars {inside : Bool} {script : Script} (matched : script.Matched inside)
    (suffix : List Char) :
    levels inside (script.chars ++ suffix) = appendFirst script (levels false suffix) := by
  induction script generalizing inside suffix with
  | plain content => exact levels_flat matched suffix
  | group lead inner rest ihInner ihRest =>
      obtain ⟨flat, innerMatched, restMatched⟩ := matched
      obtain ⟨first, outer, found⟩ := List.exists_cons_of_ne_nil (levels_ne_nil false suffix)
      have closed : levels false (')' :: (rest.chars ++ suffix)) =
          plain [] :: rest.append first :: outer := by
        change plain [] :: levels false (rest.chars ++ suffix) = _
        rw [ihRest restMatched, found, appendFirst]
      have opened : levels false ('(' :: (inner.chars ++ ')' :: (rest.chars ++ suffix))) =
          group [] inner (rest.append first) :: outer := by
        refine levels_opening ?_
        rw [ihInner innerMatched, closed, appendFirst, append_plain_nil]
      simp only [chars, List.append_assoc, List.cons_append]
      rw [levels_flat flat, opened, found]
      simp [appendFirst, append, prepend]

/-- What the levels of a text look like when it is checked with `depth` parentheses open. -/
structure Reads (depth : Nat) (inside : Bool) (text : List Char) (first : Script)
    (outer : List Script) : Prop where
  levels_eq : levels inside text = first :: outer
  first_matched : first.Matched inside
  outer_matched : ∀ script ∈ outer, script.Matched false
  outer_length : outer.length = depth
  chars_eq : first.chars ++ outer.flatMap (fun script => ')' :: script.chars) = text

theorem Reads.prepend {depth : Nat} {inside inside' : Bool} {c : Char} {rest : List Char}
    {first : Script} {outer : List Script} (reads : Reads depth inside' rest first outer)
    (levels_eq : levels inside (c :: rest) = prependFirst c (levels inside' rest))
    (first_matched : (first.prepend [c]).Matched inside) :
    Reads depth inside (c :: rest) (first.prepend [c]) outer where
  levels_eq := by rw [levels_eq, reads.levels_eq, prependFirst]
  first_matched := first_matched
  outer_matched := reads.outer_matched
  outer_length := reads.outer_length
  chars_eq := by rw [chars_prepend, List.append_assoc, reads.chars_eq, List.singleton_append]

theorem Matched.prependChar {inside inside' : Bool} {c : Char} {script : Script}
    (matched : script.Matched inside')
    (keeps : ∀ text, isFlat inside' text = true → isFlat inside (c :: text) = true) :
    (script.prepend [c]).Matched inside := by
  cases script with
  | plain content => exact keeps content matched
  | group lead inner rest => exact ⟨keeps lead matched.1, matched.2⟩

theorem reads_of_check {depth : Nat} {inside : Bool} {text : List Char}
    (checked : check depth inside text = .ok ()) :
    ∃ first outer, Reads depth inside text first outer := by
  induction text generalizing depth inside with
  | nil =>
      obtain ⟨rfl, rfl⟩ := check_nil checked
      exact ⟨plain [], [], rfl, rfl, by simp, rfl, rfl⟩
  | cons c rest ih =>
      obtain ⟨depth', inside', step, next⟩ := exists_step_of_check checked
      obtain ⟨first, outer, reads⟩ := ih next
      cases step with
      | quote =>
          exact ⟨_, _, reads.prepend (by simp [levels])
            (reads.first_matched.prependChar (by simp [isFlat]))⟩
      | within _ notQuote =>
          exact ⟨_, _, reads.prepend (by simp [levels, notQuote])
            (reads.first_matched.prependChar (by simp [isFlat, notQuote]))⟩
      | opening =>
          obtain ⟨levels_eq, first_matched, outer_matched, outer_length, chars_eq⟩ := reads
          -- the parenthesis takes the script in progress and the next one
          obtain ⟨next, waiting, rfl⟩ := List.exists_cons_of_length_eq_add_one outer_length
          refine ⟨group [] first next, waiting, ?_, ?_, ?_, ?_, ?_⟩
          · simp [levels, levels_eq]
          · exact ⟨rfl, first_matched, outer_matched next List.mem_cons_self⟩
          · exact fun script member => outer_matched script (List.mem_cons_of_mem _ member)
          · simpa using outer_length
          · simpa [chars] using chars_eq
      | closing =>
          obtain ⟨levels_eq, first_matched, outer_matched, outer_length, chars_eq⟩ := reads
          refine ⟨plain [], first :: outer, ?_, rfl, ?_, ?_, ?_⟩
          · simp [levels, levels_eq]
          · exact List.forall_mem_cons.mpr ⟨first_matched, outer_matched⟩
          · rw [List.length_cons, outer_length]
          · simpa [chars] using chars_eq
      | without _ notQuote notOpening notClosing =>
          exact ⟨_, _, reads.prepend (by simp [levels, notQuote, notOpening, notClosing])
            (reads.first_matched.prependChar (by simp [isFlat, notQuote, notOpening, notClosing]))⟩

theorem ofChars_eq_ok {text : List Char} {script : Script} :
    ofChars text = .ok script ↔ script.Matched false ∧ script.chars = text := by
  constructor
  · intro read
    cases checked : check 0 false text with
    | error error => simp [ofChars, checked, bind, Except.bind] at read
    | ok _ =>
        obtain ⟨first, outer, reads⟩ := reads_of_check checked
        obtain ⟨levels_eq, first_matched, _, outer_length, chars_eq⟩ := reads
        rw [List.length_eq_zero_iff] at outer_length
        subst outer_length
        have same : first = script := by
          simpa [ofChars, checked, levels_eq, bind, Except.bind, pure, Except.pure] using read
        subst same
        exact ⟨first_matched, by simpa using chars_eq⟩
  · rintro ⟨matched, rfl⟩
    have levels_eq := levels_chars matched []
    rw [List.append_nil] at levels_eq
    have last : levels false [] = [plain []] := rfl
    rw [ofChars, matched.checked, levels_eq, last, appendFirst, append_plain_nil]
    rfl

theorem ofChars_of_check {text : List Char} (checked : check 0 false text = .ok ()) :
    ∃ script, ofChars text = .ok script := by
  simp [ofChars, checked, bind, Except.bind, pure, Except.pure]

theorem check_append {text : List Char} (checked : check 0 false text = .ok ()) (depth : Nat)
    (suffix : List Char) : check depth false (text ++ suffix) = check depth false suffix := by
  obtain ⟨script, read⟩ := ofChars_of_check checked
  obtain ⟨matched, rfl⟩ := ofChars_eq_ok.mp read
  exact check_chars matched suffix

theorem check_group {front inner : List Char} (checkedFront : check 0 false front = .ok ())
    (checkedInner : check 0 false inner = .ok ()) (back : List Char) :
    check 0 false (front ++ '(' :: (inner ++ ')' :: back)) = check 0 false back := by
  rw [check_append checkedFront]
  change check 1 false (inner ++ ')' :: back) = check 0 false back
  rw [check_append checkedInner]
  rfl

theorem endsQuoted_of_check {text : List Char} (checked : check 0 false text = .ok ()) :
    endsQuoted false text = false := by
  obtain ⟨script, read⟩ := ofChars_of_check checked
  obtain ⟨matched, rfl⟩ := ofChars_eq_ok.mp read
  exact endsQuoted_chars matched

end Script

end Worksheet
