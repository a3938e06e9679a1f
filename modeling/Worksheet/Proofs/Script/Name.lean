import Mathlib
import Worksheet.Proofs.Number.Literal
import Worksheet.Proofs.Script.Matching
import Worksheet.Proofs.Text.Quoted
import Worksheet.Script.Reduction

/-!
# Names in front of parentheses

The name of a call ends at its parenthesis, so only what stands directly in front of it matters. A
literal never becomes part of a name: one in front of a name either leaves the name as it is or,
where its digits join the name, takes it away. `callNames` lists the names of a text in order.
-/

set_option autoImplicit false

namespace Worksheet

/-- No name reaches back into the text, which is given backwards. -/
def StopsName (behind : List Char) : Prop :=
  ∀ c ∈ behind.head?, isNameChar c = false

theorem stopsName_nil : StopsName [] := by
  simp [StopsName]

theorem stopsName_cons {c : Char} (other : isNameChar c = false) (rest : List Char) :
    StopsName (c :: rest) := by
  simpa [StopsName] using other

theorem StopsName.takeWhile_eq {behind : List Char} (stops : StopsName behind) :
    behind.takeWhile isNameChar = [] := by
  cases behind with
  | nil => rfl
  | cons c rest => exact List.takeWhile_cons_of_neg (by simp [stops c rfl])

theorem StopsName.nameBehind?_eq {behind : List Char} (stops : StopsName behind) :
    nameBehind? behind = none := by
  rw [nameBehind?, stops.takeWhile_eq]
  rfl

theorem nameBehind?_append_of_stops (near : List Char) {behind : List Char}
    (stops : StopsName behind) : nameBehind? (near ++ behind) = nameBehind? near := by
  have same : (near ++ behind).takeWhile isNameChar = near.takeWhile isNameChar := by
    rw [List.takeWhile_append, stops.takeWhile_eq, List.append_nil]
    split
    · rename_i whole
      exact (List.IsPrefix.eq_of_length (List.takeWhile_prefix _) whole).symm
    · rfl
  rw [nameBehind?, nameBehind?, same]

/-- A text without a name at its end leaves a name behind it as it is, or takes it away when
nothing but the name stands there. -/
theorem nameBehind?_append_of_none (near : List Char) {behind : List Char}
    (nameless : nameBehind? behind = none) :
    nameBehind? (near ++ behind) = nameBehind? near ∨
      nameBehind? (near ++ behind) = none ∧ ∀ c ∈ near, isNameChar c = true := by
  by_cases whole : ∀ c ∈ near, isNameChar c = true
  · have run : (near ++ behind).takeWhile isNameChar = near ++ behind.takeWhile isNameChar :=
      List.takeWhile_append_of_pos whole
    have nearRun : near.takeWhile isNameChar = near := List.takeWhile_eq_self_iff.mpr whole
    cases found : (behind.takeWhile isNameChar).reverse with
    | nil =>
        left
        rw [nameBehind?, nameBehind?, run, nearRun, List.reverse_eq_nil_iff.mp found,
          List.append_nil]
    | cons first rest =>
        right
        have digit : first.isDigit = true := by
          by_contra letter
          simp [nameBehind?, found, letter] at nameless
        refine ⟨?_, whole⟩
        rw [nameBehind?, run, List.reverse_append, found]
        simp [digit]
  · left
    have short : near.takeWhile isNameChar ≠ near := mt List.takeWhile_eq_self_iff.mp whole
    have run : (near ++ behind).takeWhile isNameChar = near.takeWhile isNameChar := by
      rw [List.takeWhile_append, if_neg]
      intro same
      exact short (List.IsPrefix.eq_of_length (List.takeWhile_prefix _) same)
    rw [nameBehind?, nameBehind?, run]

theorem takeWhile_of_nameBehind? {behind name : List Char} (found : nameBehind? behind = some name) :
    behind.takeWhile isNameChar = name.reverse := by
  unfold nameBehind? at found
  split at found
  · cases found
  · rename_i first rest run
    split at found
    · cases found
    · rw [← Option.some.inj found, ← run, List.reverse_reverse]

theorem nameBehind?_ne_nil {behind name : List Char} (found : nameBehind? behind = some name) :
    name ≠ [] := by
  rintro rfl
  unfold nameBehind? at found
  split at found
  · cases found
  · split at found <;> simp at found

theorem eq_append_of_nameBehind? {behind name : List Char}
    (found : nameBehind? behind = some name) :
    ∃ before, behind = name.reverse ++ before ∧ StopsName before := by
  refine ⟨behind.dropWhile isNameChar, ?_, ?_⟩
  · rw [← takeWhile_of_nameBehind? found, List.takeWhile_append_dropWhile]
  · intro c member
    have stops := List.head?_dropWhile_not isNameChar behind
    rw [Option.mem_def.mp member] at stops
    exact stops

theorem isNameChar_of_mem_name {behind name : List Char} (found : nameBehind? behind = some name)
    {c : Char} (member : c ∈ name) : isNameChar c = true := by
  have run : c ∈ behind.takeWhile isNameChar := by
    rw [takeWhile_of_nameBehind? found]
    exact List.mem_reverse.mpr member
  exact List.mem_takeWhile_imp run

def IsIdentifier (name : List Char) : Prop :=
  ∃ first rest, name = first :: rest ∧ (first.isAlpha = true ∨ first = '_') ∧
    ∀ c ∈ rest, c.isAlphanum = true ∨ c = '_'

theorem isIdentifier_of_nameBehind? {behind name : List Char}
    (found : nameBehind? behind = some name) : IsIdentifier name := by
  have member (c : Char) (inName : c ∈ name) : c.isAlphanum = true ∨ c = '_' := by
    simpa [isNameChar] using isNameChar_of_mem_name found inName
  unfold nameBehind? at found
  split at found
  · cases found
  · rename_i first rest _
    split at found
    · cases found
    · rename_i notDigit
      obtain rfl := Option.some.inj found
      refine ⟨first, rest, rfl, ?_, fun c inRest => member c (List.mem_cons_of_mem _ inRest)⟩
      apply (member first List.mem_cons_self).imp_left
      intro alphanumeric
      simpa [Char.isAlphanum, notDigit] using alphanumeric

theorem isAlpha_of_isDigit {c : Char} (digit : c.isDigit = true) : c.isAlpha = false := by
  simp only [Char.isDigit, Char.isAlpha, Char.isUpper, Char.isLower, Bool.and_eq_true,
    decide_eq_true_eq, Bool.or_eq_false_iff, Bool.and_eq_false_iff, decide_eq_false_iff_not,
    UInt32.le_iff_toNat_le, ge_iff_le] at digit ⊢
  have least : ('A' : Char).val.toNat = 65 := rfl
  have most : ('9' : Char).val.toNat = 57 := rfl
  have small : ('a' : Char).val.toNat = 97 := rfl
  omega

theorem IsIdentifier.members {name : List Char} (identifier : IsIdentifier name) {c : Char}
    (member : c ∈ name) : isNameChar c = true := by
  obtain ⟨first, rest, rfl, begins, others⟩ := identifier
  rcases List.mem_cons.mp member with rfl | member
  · rcases begins with letter | underscore
    · simp [isNameChar, Char.isAlphanum, letter]
    · rw [underscore]
      decide
  · simpa [isNameChar] using others c member

/-- A name ends a text that is given backwards when it is an identifier and nothing in front of it
reaches into it. -/
theorem nameBehind?_eq_some_iff {behind name : List Char} :
    nameBehind? behind = some name ↔
      IsIdentifier name ∧ ∃ before, behind = name.reverse ++ before ∧ StopsName before := by
  constructor
  · intro found
    exact ⟨isIdentifier_of_nameBehind? found, eq_append_of_nameBehind? found⟩
  · rintro ⟨identifier, before, rfl, stops⟩
    have run : name.reverse.takeWhile isNameChar = name.reverse := by
      rw [List.takeWhile_eq_self_iff]
      intro c member
      exact identifier.members (List.mem_reverse.mp member)
    obtain ⟨first, rest, rfl, begins, _⟩ := identifier
    have notDigit : first.isDigit = false := by
      rcases begins with letter | rfl
      · by_contra digit
        rw [isAlpha_of_isDigit (by simpa using digit)] at letter
        cases letter
      · decide
    rw [nameBehind?_append_of_stops _ stops, nameBehind?, run, List.reverse_reverse]
    simp [notDigit]

/-! ## Literals and leads -/

/-- No name stands at the end of a number, because its run of digits begins with one. -/
theorem nameBehind?_of_numeric {digits before : List Char}
    (numeric : ∀ c ∈ digits, Token.isNumberChar c = true) (stops : StopsName before) :
    nameBehind? (digits.reverse ++ before) = none := by
  rw [nameBehind?_append_of_stops _ stops]
  cases found : nameBehind? digits.reverse with
  | none => rfl
  | some name =>
      exfalso
      obtain ⟨first, rest, rfl⟩ := List.exists_cons_of_ne_nil (nameBehind?_ne_nil found)
      have member : first ∈ digits := by
        have run : first ∈ digits.reverse.takeWhile isNameChar := by
          rw [takeWhile_of_nameBehind? found]
          simp
        exact List.mem_reverse.mp (List.takeWhile_subset _ run)
      have digit : first.isDigit = true := by
        have name := isNameChar_of_mem_name found (List.mem_cons_self (a := first))
        have number := numeric first member
        by_cases point : first = '.'
        · subst point
          revert name
          decide
        · simpa [Token.isNumberChar, point] using number
      unfold nameBehind? at found
      split at found
      · cases found
      · split at found
        · cases found
        · rename_i letter
          obtain ⟨rfl, -⟩ := List.cons.inj (Option.some.inj found)
          exact letter digit

theorem stopsName_quote (content behind : List Char) :
    StopsName ((quote content).reverse ++ behind) := by
  simp only [quote, List.reverse_cons, List.reverse_append, List.append_assoc, List.cons_append]
  exact stopsName_cons (by decide) _

theorem isNumberChar_ne {c : Char} (numeric : Token.isNumberChar c = true) :
    c ≠ '"' ∧ c ≠ '(' ∧ c ≠ ')' := by
  refine ⟨?_, ?_, ?_⟩ <;> (rintro rfl; revert numeric; decide)

theorem isNameChar_ne {c : Char} (name : isNameChar c = true) :
    c ≠ '"' ∧ c ≠ '(' ∧ c ≠ ')' := by
  refine ⟨?_, ?_, ?_⟩ <;> (rintro rfl; revert name; decide)

theorem isPlain_of_nameChars {text : List Char} (members : ∀ c ∈ text, isNameChar c = true) :
    IsPlain text :=
  fun c member => isNameChar_ne (members c member)

theorem isPlain_of_name {behind name : List Char} (found : nameBehind? behind = some name) :
    IsPlain name :=
  isPlain_of_nameChars fun _ => isNameChar_of_mem_name found

theorem bounds_of_isNameChar {c : Char} (name : isNameChar c = true) :
    48 ≤ c.toNat ∧ c.toNat ≤ 122 := by
  simp only [isNameChar, Char.isAlphanum, Char.isAlpha, Char.isUpper, Char.isLower, Char.isDigit,
    Bool.or_eq_true, Bool.and_eq_true, decide_eq_true_eq, beq_iff_eq, ge_iff_le,
    UInt32.le_iff_toNat_le] at name
  rcases name with ((⟨low, high⟩ | ⟨low, high⟩) | ⟨low, high⟩) | rfl
  · change 65 ≤ c.toNat at low
    change c.toNat ≤ 90 at high
    omega
  · change 97 ≤ c.toNat at low
    change c.toNat ≤ 122 at high
    omega
  · change 48 ≤ c.toNat at low
    change c.toNat ≤ 57 at high
    omega
  · decide

theorem isBlank_of_isNameChar {c : Char} (name : isNameChar c = true) : isBlank c = false := by
  have bounds := bounds_of_isNameChar name
  simp only [isBlank, Bool.or_eq_false_iff, Bool.and_eq_false_iff, decide_eq_false_iff_not,
    beq_eq_false_iff_ne, ne_eq]
  omega

theorem isFlat_numeric {digits : List Char}
    (numeric : ∀ c ∈ digits, Token.isNumberChar c = true) : isFlat false digits = true :=
  isFlat_of_plain fun c member => isNumberChar_ne (numeric c member)

theorem isFlat_doubleQuotes (content rest : List Char) :
    isFlat true (doubleQuotes content ++ rest) = isFlat true rest := by
  induction content with
  | nil => rfl
  | cons c content ih =>
      unfold doubleQuotes
      by_cases isQuote : c = '"'
      · rw [if_pos isQuote, List.cons_append, List.cons_append, isFlat_quote, isFlat_quote]
        exact ih
      · rw [if_neg isQuote, List.cons_append, isFlat_within isQuote, ih]

theorem isFlat_quoted (content : List Char) : isFlat false (quote content) = true := by
  rw [quote, isFlat_quote]
  exact isFlat_doubleQuotes content ['"']

theorem exists_flat_of_takeQuoted {text content after : List Char}
    (read : takeQuoted text = some (content, after)) :
    ∃ literal, isFlat true literal = true ∧ text = literal ++ after := by
  refine ⟨doubleQuotes content ++ ['"'], isFlat_doubleQuotes content ['"'], ?_⟩
  rw [eq_of_takeQuoted read, List.append_assoc, List.singleton_append]

theorem isFlat_of_append {inside : Bool} {first second : List Char} (plain : IsPlain second)
    (flat : isFlat inside (first ++ second) = true) : isFlat inside first = true := by
  induction first generalizing inside with
  | nil =>
      cases inside with
      | false => rfl
      | true =>
          exfalso
          induction second with
          | nil => simp [isFlat] at flat
          | cons c rest ih =>
              rw [List.nil_append, isFlat_within (plain c List.mem_cons_self).1] at flat
              exact ih (fun c member => plain c (List.mem_cons_of_mem _ member)) flat
  | cons c rest ih =>
      rw [List.cons_append] at flat
      by_cases isQuote : c = '"'
      · subst isQuote
        rw [isFlat_quote] at flat ⊢
        exact ih flat
      · cases inside with
        | true =>
            rw [isFlat_within isQuote] at flat ⊢
            exact ih flat
        | false =>
            simp only [isFlat, if_neg isQuote, Bool.false_eq_true, if_false, Bool.and_eq_true]
              at flat ⊢
            exact ⟨flat.1, ih flat.2⟩

namespace Script

theorem lead_eq_of_callName? {lead name : List Char} (found : callName? lead = some name) :
    lead = beforeName lead name ++ name ∧ StopsName (beforeName lead name).reverse := by
  obtain ⟨before, same, stops⟩ := eq_append_of_nameBehind? found
  have forwards : lead = before.reverse ++ name := by
    have reversed := congrArg List.reverse same
    simpa using reversed
  have front : beforeName lead name = before.reverse := by
    rw [beforeName, forwards]
    simp
  rw [front, List.reverse_reverse]
  exact ⟨forwards, stops⟩

theorem callName?_name {lead name : List Char} (found : callName? lead = some name) :
    callName? name = some name := by
  obtain ⟨whole, stops⟩ := lead_eq_of_callName? found
  rw [whole, callName?, List.reverse_append, nameBehind?_append_of_stops _ stops] at found
  exact found

theorem isFlat_beforeName {inside : Bool} {lead name : List Char}
    (flat : isFlat inside lead = true) (found : callName? lead = some name) :
    isFlat inside (beforeName lead name) = true := by
  refine @isFlat_of_append inside (beforeName lead name) name (isPlain_of_name found) ?_
  rw [← (lead_eq_of_callName? found).1]
  exact flat

/-- Text with no name at its end, put in front of a lead, leaves the name of the lead as it is or
takes it away; it only does so when the lead is nothing but name characters. -/
theorem callName?_append {text : List Char} (nameless : callName? text = none)
    (lead : List Char) :
    callName? (text ++ lead) = callName? lead ∨
      callName? (text ++ lead) = none ∧ ∀ c ∈ lead, isNameChar c = true := by
  have cases := nameBehind?_append_of_none lead.reverse nameless
  simpa [callName?] using cases

theorem beforeName_of_whole {lead name : List Char} (named : callName? lead = some name)
    (whole : ∀ c ∈ lead, isNameChar c = true) : beforeName lead name = [] := by
  have run := takeWhile_of_nameBehind? named
  rw [List.takeWhile_eq_self_iff.mpr (by simpa using whole)] at run
  have same : lead = name := List.reverse_inj.mp run
  rw [beforeName, same]
  simp

theorem callName?_append_of_apart {text : List Char} (nameless : callName? text = none)
    {lead : List Char} (apart : ∀ name, callName? lead = some name → beforeName lead name ≠ []) :
    callName? (text ++ lead) = callName? lead := by
  rcases callName?_append nameless lead with same | ⟨gone, whole⟩
  · exact same
  · cases named : callName? lead with
    | none => exact gone
    | some name => exact absurd (beforeName_of_whole named whole) (apart name named)

theorem beforeName_append {lead name : List Char} (found : callName? lead = some name)
    (text : List Char) : beforeName (text ++ lead) name = text ++ beforeName lead name := by
  have whole := congrArg List.length (lead_eq_of_callName? found).1
  rw [List.length_append] at whole
  rw [beforeName, beforeName, List.take_append, List.length_append]
  have fits : name.length ≤ lead.length := by omega
  rw [List.take_of_length_le (by omega)]
  congr 2
  omega

end Script

end Worksheet
