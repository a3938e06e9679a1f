import Mathlib
import Worksheet.Proofs.Script.Matching
import Worksheet.Proofs.Text.Blank
import Worksheet.Script.Arguments

/-!
# Splitting arguments

A text is solid when none of its commas separates arguments: it belongs to one argument as a whole,
whatever follows it.
-/

set_option autoImplicit false

namespace Worksheet

theorem eq_or_exists_of_mem_intercalate {texts : List (List Char)} {c : Char}
    (member : c ∈ [','].intercalate texts) : c = ',' ∨ ∃ text ∈ texts, c ∈ text := by
  induction texts with
  | nil => cases member
  | cons first others ih =>
      cases others with
      | nil =>
          rw [List.intercalate_singleton] at member
          exact .inr ⟨first, List.mem_cons_self, member⟩
      | cons second others =>
          rw [List.intercalate_cons_cons, List.append_assoc, List.singleton_append,
            List.mem_append, List.mem_cons] at member
          rcases member with here | isComma | behind
          · exact .inr ⟨first, List.mem_cons_self, here⟩
          · exact .inl isComma
          · apply (ih behind).imp_right
            rintro ⟨text, listed, within⟩
            exact ⟨text, List.mem_cons_of_mem _ listed, within⟩

theorem isPlain_intercalate {texts : List (List Char)} (plain : ∀ text ∈ texts, IsPlain text) :
    IsPlain ([','].intercalate texts) := by
  intro c member
  rcases eq_or_exists_of_mem_intercalate member with rfl | ⟨text, listed, within⟩
  · decide
  · exact plain text listed c within

/-! ## Parts that hold together -/

namespace Arguments

def extendText (text : List Char) : List (List Char) → List (List Char)
  | [] => [text]
  | first :: rest => (text ++ first) :: rest

/-- No comma of the text separates arguments, at whatever depth it stands outside literals. -/
def IsSolid (text : List Char) : Prop :=
  ∀ depth rest, parts depth false (text ++ rest) = extendText text (parts depth false rest)

theorem extendFirst_extendText (c : Char) (text : List Char) (list : List (List Char)) :
    extendFirst c (extendText text list) = extendText (c :: text) list := by
  cases list <;> rfl

def depthBehind (depth : Nat) (inside : Bool) (c : Char) : Nat :=
  if c = '"' ∨ inside = true then depth
  else if c = '(' then depth + 1
  else if c = ')' then depth - 1
  else depth

/-- A comma separates where no parenthesis and no literal is open; any other character belongs to the
part in progress. -/
theorem parts_cons (depth : Nat) (inside : Bool) (c : Char) (rest : List Char) :
    parts depth inside (c :: rest) =
      if c = ',' ∧ depth = 0 ∧ inside = false then [] :: parts 0 false rest
      else extendFirst c
        (parts (depthBehind depth inside c) (if c = '"' then !inside else inside) rest) := by
  by_cases isQuote : c = '"'
  · simp [parts, depthBehind, isQuote]
  cases inside with
  | true => simp [parts, depthBehind, isQuote]
  | false =>
      by_cases isOpening : c = '('
      · simp [parts, depthBehind, isOpening]
      by_cases isClosing : c = ')'
      · simp [parts, depthBehind, isClosing]
      by_cases separates : c = ',' ∧ depth = 0
      · simp [parts, separates]
      · simp [parts, depthBehind, isQuote, isOpening, isClosing, separates]

theorem parts_of_joins {depth : Nat} {inside : Bool} {c : Char}
    (joins : ¬ (c = ',' ∧ depth = 0 ∧ inside = false)) (rest : List Char) :
    parts depth inside (c :: rest) = extendFirst c
      (parts (depthBehind depth inside c) (if c = '"' then !inside else inside) rest) := by
  rw [parts_cons, if_neg joins]

theorem parts_comma_cons (rest : List Char) :
    parts 0 false (',' :: rest) = [] :: parts 0 false rest := by
  simp [parts]

theorem parts_ne_nil (depth : Nat) (inside : Bool) (text : List Char) :
    parts depth inside text ≠ [] := by
  have nonempty (c : Char) (list : List (List Char)) : extendFirst c list ≠ [] := by
    cases list <;> simp [extendFirst]
  cases text with
  | nil => simp [parts]
  | cons c rest =>
      rw [parts_cons]
      split
      · simp
      · exact nonempty _ _

theorem extendText_nil {list : List (List Char)} (nonempty : list ≠ []) :
    extendText [] list = list := by
  obtain ⟨first, rest, rfl⟩ := List.exists_cons_of_ne_nil nonempty
  rfl

theorem extendText_append (first second : List Char) (list : List (List Char)) :
    extendText first (extendText second list) = extendText (first ++ second) list := by
  cases list <;> simp [extendText]

theorem length_extendFirst (c : Char) {list : List (List Char)} (nonempty : list ≠ []) :
    (extendFirst c list).length = list.length := by
  obtain ⟨first, rest, rfl⟩ := List.exists_cons_of_ne_nil nonempty
  rfl

theorem length_extendText (text : List Char) {list : List (List Char)} (nonempty : list ≠ []) :
    (extendText text list).length = list.length := by
  obtain ⟨first, rest, rfl⟩ := List.exists_cons_of_ne_nil nonempty
  rfl

theorem isSolid_nil : IsSolid [] :=
  fun depth rest => (extendText_nil (parts_ne_nil depth false rest)).symm

theorem IsSolid.append {first second : List Char} (left : IsSolid first) (right : IsSolid second) :
    IsSolid (first ++ second) := by
  intro depth rest
  rw [List.append_assoc, left, right, extendText_append]

theorem IsSolid.cons {c : Char} {text : List Char} (solid : IsSolid text)
    (plain : c ≠ '"' ∧ c ≠ '(' ∧ c ≠ ')' ∧ c ≠ ',') : IsSolid (c :: text) := by
  obtain ⟨notQuote, notOpening, notClosing, notComma⟩ := plain
  intro depth rest
  have first : parts depth false (c :: text ++ rest) =
      extendFirst c (parts depth false (text ++ rest)) := by
    simp [parts, notQuote, notOpening, notClosing, notComma]
  rw [first, solid, extendFirst_extendText]

theorem isSolid_plain {text : List Char}
    (plain : ∀ c ∈ text, c ≠ '"' ∧ c ≠ '(' ∧ c ≠ ')' ∧ c ≠ ',') : IsSolid text := by
  induction text with
  | nil => exact isSolid_nil
  | cons c rest ih =>
      exact (ih fun c member => plain c (List.mem_cons_of_mem _ member)).cons
        (plain c List.mem_cons_self)

theorem isSolid_of_within {inner : List Char}
    (within : ∀ depth rest, parts (depth + 1) false (inner ++ rest) =
      extendText inner (parts (depth + 1) false rest)) : IsSolid ('(' :: (inner ++ [')'])) := by
  intro depth rest
  have opening : parts depth false ('(' :: (inner ++ ')' :: rest)) =
      extendFirst '(' (parts (depth + 1) false (inner ++ ')' :: rest)) := by
    simp [parts]
  have closing : parts (depth + 1) false (')' :: rest) = extendText [')'] (parts depth false rest) := by
    obtain ⟨first, others, found⟩ := List.exists_cons_of_ne_nil (parts_ne_nil depth false rest)
    simp [parts, found, extendFirst, extendText]
  rw [List.cons_append, List.append_assoc, List.singleton_append, opening, within, closing,
    extendText_append, extendFirst_extendText]

theorem IsSolid.group {inner : List Char} (solid : IsSolid inner) :
    IsSolid ('(' :: (inner ++ [')'])) :=
  isSolid_of_within fun depth rest => solid (depth + 1) rest

theorem isSolid_quote (content : List Char) : IsSolid (quote content) := by
  intro depth rest
  have opening (text : List Char) :
      parts depth false ('"' :: text) = extendFirst '"' (parts depth true text) := by
    simp [parts]
  have closing : parts depth true ('"' :: rest) = extendText ['"'] (parts depth false rest) := by
    obtain ⟨first, others, found⟩ := List.exists_cons_of_ne_nil (parts_ne_nil depth false rest)
    simp [parts, found, extendFirst, extendText]
  have inner (text : List Char) :
      parts depth true (doubleQuotes content ++ text) =
        extendText (doubleQuotes content) (parts depth true text) := by
    induction content with
    | nil => exact (extendText_nil (parts_ne_nil depth true text)).symm
    | cons c more ih =>
        by_cases isQuote : c = '"'
        · simp [doubleQuotes, isQuote, parts, ih, extendFirst_extendText]
        · simp [doubleQuotes, isQuote, parts, ih, extendFirst_extendText]
  rw [quote, List.cons_append, List.append_assoc, List.singleton_append, opening, inner, closing,
    extendText_append, extendFirst_extendText]

theorem IsSolid.parts_eq {text : List Char} (solid : IsSolid text) : parts 0 false text = [text] := by
  have whole := solid 0 []
  rw [List.append_nil] at whole
  rw [whole]
  simp [parts, extendText]

theorem IsSolid.parts_comma {text : List Char} (solid : IsSolid text) (rest : List Char) :
    parts 0 false (text ++ ',' :: rest) = text :: parts 0 false rest := by
  have comma : parts 0 false (',' :: rest) = [] :: parts 0 false rest := by
    simp [parts]
  rw [solid, comma, extendText, List.append_nil]

/-! ## Parts of two texts -/

def joinParts : List (List Char) → List (List Char) → List (List Char)
  | [], right => right
  | [last], right => extendText last right
  | first :: second :: more, right => first :: joinParts (second :: more) right

theorem joinParts_extendFirst (c : Char) {left : List (List Char)} (nonempty : left ≠ [])
    (right : List (List Char)) :
    joinParts (extendFirst c left) right = extendFirst c (joinParts left right) := by
  cases left with
  | nil => exact absurd rfl nonempty
  | cons first more =>
      cases more with
      | nil => exact (extendFirst_extendText c first right).symm
      | cons second more => rfl

theorem joinParts_cons (first : List Char) {left : List (List Char)} (nonempty : left ≠ [])
    (right : List (List Char)) : joinParts (first :: left) right = first :: joinParts left right := by
  cases left with
  | nil => exact absurd rfl nonempty
  | cons second more => rfl

theorem joinParts_nil_cons {left : List (List Char)} (nonempty : left ≠ [])
    (right : List (List Char)) : joinParts left ([] :: right) = left ++ right := by
  induction left with
  | nil => exact absurd rfl nonempty
  | cons first more ih =>
      cases more with
      | nil => simp [joinParts, extendText]
      | cons second more => simpa [joinParts] using ih (by simp)

theorem length_joinParts {left right : List (List Char)} (nonempty : left ≠ [])
    (nonempty' : right ≠ []) : (joinParts left right).length + 1 = left.length + right.length := by
  induction left with
  | nil => exact absurd rfl nonempty
  | cons first more ih =>
      cases more with
      | nil =>
          obtain ⟨head, rest, rfl⟩ := List.exists_cons_of_ne_nil nonempty'
          simp only [joinParts, extendText, List.length_cons, List.length_nil]
          omega
      | cons second more =>
          have tail := ih (by simp)
          simp only [joinParts, List.length_cons] at tail ⊢
          omega

theorem getElem?_joinParts {left : List (List Char)} {k : Nat} (length : left.length = k + 1)
    (text : List Char) {right : List (List Char)} (nonempty : right ≠ []) :
    ∃ last ∈ left, ∃ first, (joinParts left (extendText text right))[k]? =
      some (last ++ text ++ first) := by
  induction left generalizing k with
  | nil => cases length
  | cons head more ih =>
      cases more with
      | nil =>
          obtain rfl : k = 0 := by simpa using length.symm
          obtain ⟨first, rest, rfl⟩ := List.exists_cons_of_ne_nil nonempty
          exact ⟨head, by simp, first, by simp [joinParts, extendText]⟩
      | cons second more =>
          obtain ⟨k, rfl⟩ : ∃ earlier, k = earlier + 1 := ⟨more.length, by simpa using length.symm⟩
          obtain ⟨last, member, first, found⟩ := ih (by simpa using length)
          exact ⟨last, List.mem_cons_of_mem _ member, first, by simpa [joinParts] using found⟩

/-- A character of a text that passes the check belongs to the first part, unless it is a comma that
separates. -/
theorem parts_of_step {c : Char} {depth depth' : Nat} {inside inside' : Bool}
    (step : Script.CheckStep c depth inside depth' inside') :
    (∀ rest, parts depth inside (c :: rest) = extendFirst c (parts depth' inside' rest)) ∨
      c = ',' ∧ depth = 0 ∧ inside = false ∧ depth' = 0 ∧ inside' = false := by
  cases step with
  | quote => exact .inl fun rest => by rw [parts, if_pos rfl]
  | within _ notQuote => exact .inl fun rest => by rw [parts, if_neg notQuote, if_pos rfl]
  | opening => exact .inl fun rest => by simp [parts]
  | closing => exact .inl fun rest => by simp [parts]
  | without _ notQuote notOpening notClosing =>
      by_cases separates : c = ',' ∧ depth = 0
      · exact .inr ⟨separates.1, separates.2, rfl, separates.2, rfl⟩
      · exact .inl fun rest => by
          rw [parts, if_neg notQuote, if_neg Bool.false_ne_true, if_neg notOpening,
            if_neg notClosing, if_neg separates]

theorem parts_append {depth : Nat} {inside : Bool} {first : List Char}
    (checked : Script.check depth inside first = .ok ()) (second : List Char) :
    parts depth inside (first ++ second) =
      joinParts (parts depth inside first) (parts 0 false second) := by
  induction first generalizing depth inside with
  | nil =>
      obtain ⟨rfl, rfl⟩ := Script.check_nil checked
      exact (extendText_nil (parts_ne_nil 0 false second)).symm
  | cons c rest ih =>
      obtain ⟨depth', inside', step, next⟩ := Script.exists_step_of_check checked
      rw [List.cons_append]
      rcases parts_of_step step with extended | ⟨rfl, rfl, rfl, rfl, rfl⟩
      · rw [extended, extended, ih next, joinParts_extendFirst c (parts_ne_nil _ _ _)]
      · rw [parts_comma_cons, parts_comma_cons, ih next, joinParts_cons _ (parts_ne_nil _ _ _)]

theorem parts_within {depth : Nat} {inside : Bool} {text : List Char}
    (checked : Script.check depth inside text = .ok ()) (outer : Nat) (rest : List Char) :
    parts (depth + (outer + 1)) inside (text ++ rest) =
      extendText text (parts (outer + 1) false rest) := by
  induction text generalizing depth inside with
  | nil =>
      obtain ⟨rfl, rfl⟩ := Script.check_nil checked
      rw [Nat.zero_add]
      exact (extendText_nil (parts_ne_nil _ false rest)).symm
  | cons c more ih =>
      obtain ⟨depth', inside', step, next⟩ := Script.exists_step_of_check checked
      rw [List.cons_append]
      rcases parts_of_step (step.deeper (outer + 1)) with extended | ⟨_, none, _⟩
      · rw [extended, ih next, extendFirst_extendText]
      · omega

theorem isSolid_group {inner : List Char} (checked : Script.check 0 false inner = .ok ()) :
    IsSolid ('(' :: (inner ++ [')'])) := by
  refine isSolid_of_within fun depth rest => ?_
  have within := parts_within checked depth rest
  rwa [Nat.zero_add] at within

def commas (text : List Char) : Nat :=
  (parts 0 false text).length - 1

theorem commas_append {first : List Char} (checked : Script.check 0 false first = .ok ())
    (second : List Char) : commas (first ++ second) = commas first + commas second := by
  have left := List.length_pos_iff.mpr (parts_ne_nil 0 false first)
  have right := List.length_pos_iff.mpr (parts_ne_nil 0 false second)
  have joined := length_joinParts (parts_ne_nil 0 false first) (parts_ne_nil 0 false second)
  rw [commas, commas, commas, parts_append checked]
  omega

theorem IsSolid.commas_eq {text : List Char} (solid : IsSolid text) : commas text = 0 := by
  rw [commas, solid.parts_eq]
  rfl

theorem commas_group {front inner : List Char} (checkedFront : Script.check 0 false front = .ok ())
    (checkedInner : Script.check 0 false inner = .ok ()) (back : List Char) :
    commas (front ++ '(' :: (inner ++ ')' :: back)) = commas front + commas back := by
  have checked : Script.check 0 false ('(' :: (inner ++ [')'])) = .ok () :=
    @Script.check_group [] inner rfl checkedInner []
  have split : '(' :: (inner ++ ')' :: back) = '(' :: (inner ++ [')']) ++ back := by simp
  rw [commas_append checkedFront, split, commas_append checked,
    (isSolid_group checkedInner).commas_eq, Nat.zero_add]

theorem exists_first_part (depth : Nat) (inside : Bool) (text : List Char) :
    ∃ first, parts depth inside first = [first] ∧
      (first = text ∨ ∃ rest, text = first ++ ',' :: rest ∧
        parts depth inside text = first :: parts 0 false rest) := by
  induction text generalizing depth inside with
  | nil => exact ⟨[], rfl, .inl rfl⟩
  | cons c text ih =>
      by_cases separates : c = ',' ∧ depth = 0 ∧ inside = false
      · obtain ⟨rfl, rfl, rfl⟩ := separates
        exact ⟨[], rfl, .inr ⟨text, rfl, parts_comma_cons text⟩⟩
      have joins := @parts_of_joins depth inside c separates
      obtain ⟨first, own, whole | ⟨rest, split, others⟩⟩ :=
        ih (depthBehind depth inside c) (if c = '"' then !inside else inside)
      · exact ⟨c :: first, by rw [joins, own, extendFirst], .inl (by rw [whole])⟩
      · exact ⟨c :: first, by rw [joins, own, extendFirst],
          .inr ⟨rest, by rw [split, List.cons_append], by rw [joins, others, extendFirst]⟩⟩

theorem parts_of_commas {text : List Char} (none : commas text = 0) :
    parts 0 false text = [text] := by
  obtain ⟨first, own, rfl | ⟨rest, _, others⟩⟩ := exists_first_part 0 false text
  · exact own
  · have further := List.length_pos_iff.mpr (parts_ne_nil 0 false rest)
    rw [commas, others, List.length_cons] at none
    omega

theorem parts_append_comma {first : List Char} (checked : Script.check 0 false first = .ok ())
    (rest : List Char) :
    parts 0 false (first ++ ',' :: rest) = parts 0 false first ++ parts 0 false rest := by
  rw [parts_append checked, parts_comma_cons, joinParts_nil_cons (parts_ne_nil 0 false first)]

theorem closed_parts {depth : Nat} {inside : Bool} {text : List Char}
    (closed : endsQuoted inside text = false) :
    ∃ first others, parts depth inside text = first :: others ∧ endsQuoted inside first = false ∧
      ∀ part ∈ others, endsQuoted false part = false := by
  induction text generalizing depth inside with
  | nil => exact ⟨[], [], rfl, closed, by simp⟩
  | cons c rest ih =>
      by_cases separates : c = ',' ∧ depth = 0 ∧ inside = false
      · obtain ⟨rfl, rfl, rfl⟩ := separates
        obtain ⟨first, others, found, firstClosed, othersClosed⟩ := @ih 0 false closed
        exact ⟨[], first :: others, by rw [parts_comma_cons, found], rfl,
          List.forall_mem_cons.mpr ⟨firstClosed, othersClosed⟩⟩
      · obtain ⟨first, others, found, firstClosed, othersClosed⟩ :=
          @ih (depthBehind depth inside c) (if c = '"' then !inside else inside) closed
        exact ⟨c :: first, others, by rw [parts_of_joins separates, found, extendFirst],
          firstClosed, othersClosed⟩

theorem check_parts {depth : Nat} {inside : Bool} {text : List Char}
    (checked : Script.check depth inside text = .ok ()) :
    ∃ first others, parts depth inside text = first :: others ∧
      Script.check depth inside first = .ok () ∧
      ∀ part ∈ others, Script.check 0 false part = .ok () := by
  induction text generalizing depth inside with
  | nil => exact ⟨[], [], rfl, checked, by simp⟩
  | cons c rest ih =>
      obtain ⟨depth', inside', step, next⟩ := Script.exists_step_of_check checked
      obtain ⟨first, others, found, firstChecked, othersChecked⟩ := ih next
      rcases parts_of_step step with extended | ⟨rfl, rfl, rfl, rfl, rfl⟩
      · refine ⟨c :: first, others, by rw [extended, found, extendFirst], ?_, othersChecked⟩
        rw [Script.check_of_step step, firstChecked]
      · exact ⟨[], first :: others, by rw [parts_comma_cons, found], rfl,
          List.forall_mem_cons.mpr ⟨firstChecked, othersChecked⟩⟩

@[elab_as_elim]
theorem arguments_induction {motive : List Char → Prop}
    (single : ∀ text, Script.check 0 false text = .ok () → parts 0 false text = [text] → motive text)
    (comma : ∀ first rest, Script.check 0 false first = .ok () → parts 0 false first = [first] →
      Script.check 0 false rest = .ok () → motive rest → motive (first ++ ',' :: rest))
    {text : List Char} (checked : Script.check 0 false text = .ok ()) : motive text := by
  obtain ⟨first, own, rfl | ⟨rest, split, others⟩⟩ := exists_first_part 0 false text
  · exact single first checked own
  · have firstChecked : Script.check 0 false first = .ok () := by
      obtain ⟨head, _, found, headChecked, _⟩ := check_parts checked
      rw [others] at found
      rwa [(List.cons.inj found).1]
    have restChecked : Script.check 0 false rest = .ok () := by
      rw [split, Script.check_append firstChecked] at checked
      exact checked
    rw [split]
    exact comma first rest firstChecked own restChecked (arguments_induction single comma restChecked)
termination_by text.length
decreasing_by
  rw [split]
  simp
  omega

end Arguments

theorem isPlain_of_blank {blanks : List Char} (blank : ∀ c ∈ blanks, isBlank c = true) :
    IsPlain blanks := by
  intro c member
  have isBlank := blank c member
  refine ⟨?_, ?_, ?_⟩ <;> (rintro rfl; revert isBlank; decide)

theorem check_trim {text : List Char} (checked : Script.check 0 false text = .ok ()) :
    Script.check 0 false (trim text) = .ok () := by
  obtain ⟨front, back, same, frontBlank, backBlank⟩ := exists_blanks_of_trim text
  have idle (depth : Nat) (inside : Bool) :
      Script.check depth inside back = Script.check depth inside [] := by
    rw [← List.append_nil back, Script.check_plain depth inside (isPlain_of_blank backBlank)]
  rwa [same, Script.check_plain 0 false (isPlain_of_blank frontBlank),
    Script.check_append_of_idle idle] at checked

theorem Arguments.check_split {text : List Char} (checked : Script.check 0 false text = .ok ()) :
    ∀ argument ∈ split text, Script.check 0 false argument = .ok () := by
  unfold split
  split
  · exact fun _ none => absurd none List.not_mem_nil
  · obtain ⟨first, others, found, firstChecked, othersChecked⟩ := check_parts checked
    rw [found]
    intro argument member
    obtain ⟨part, inParts, rfl⟩ := List.mem_map.mp member
    rcases List.mem_cons.mp inParts with rfl | inOthers
    · exact check_trim firstChecked
    · exact check_trim (othersChecked part inOthers)

end Worksheet
