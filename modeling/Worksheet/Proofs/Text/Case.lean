import Mathlib
import Worksheet.Function.Basic
import Worksheet.Proofs.Script.Matching
import Worksheet.Text.Blank

/-!
# Letter case outside literals

`outerCapitals` is the capital form of a text outside its literals: two texts have the same one
exactly when they differ in nothing but the case of letters there. No blank, digit, quote or
parenthesis is a letter, so the capital form has its blanks, literals and parentheses where the
text has them.
-/

set_option autoImplicit false

namespace Worksheet

theorem toUpper_cases (c : Char) :
    c.toUpper = c ∨
      ∃ place < 26, c = Char.ofNat (97 + place) ∧ c.toUpper = Char.ofNat (65 + place) := by
  by_cases lower : 97 ≤ c.toNat ∧ c.toNat ≤ 122
  · right
    have raised : ∀ place < 26, (Char.ofNat (97 + place)).toUpper = Char.ofNat (65 + place) := by
      decide
    have same : c = Char.ofNat (97 + (c.toNat - 97)) := by
      rw [Nat.add_sub_cancel' lower.1, Char.ofNat_toNat]
    refine ⟨c.toNat - 97, by omega, same, ?_⟩
    rw [← raised _ (by omega), ← same]
  · left
    have other : ¬ ('a'.val ≤ c.val ∧ c.val ≤ 'z'.val) := by
      rw [UInt32.le_iff_toNat_le, UInt32.le_iff_toNat_le]
      exact lower
    rw [Char.toUpper, dif_neg other]

/-- The property does not tell a letter from its capital. -/
def IgnoresCase {α : Type} (property : Char → α) : Prop :=
  ∀ c, property c.toUpper = property c

theorem ignoresCase_of_letters {α : Type} {property : Char → α}
    (letters : ∀ place < 26,
      property (Char.ofNat (65 + place)) = property (Char.ofNat (97 + place))) :
    IgnoresCase property := by
  intro c
  rcases toUpper_cases c with same | ⟨place, less, lower, upper⟩
  · rw [same]
  · rw [upper, letters place less, ← lower]

theorem ignoresCase_isBlank : IgnoresCase isBlank :=
  ignoresCase_of_letters (by decide)

theorem ignoresCase_isDigit : IgnoresCase Char.isDigit :=
  ignoresCase_of_letters (by decide)

theorem ignoresCase_isAlpha : IgnoresCase Char.isAlpha :=
  ignoresCase_of_letters (by decide)

theorem toUpper_eq_iff {d : Char} (notLetter : d.isAlpha = false) {c : Char} :
    c.toUpper = d ↔ c = d := by
  have letters : ∀ place < 26, (Char.ofNat (65 + place)).isAlpha = true ∧
      (Char.ofNat (97 + place)).isAlpha = true := by decide
  rcases toUpper_cases c with same | ⟨place, less, lower, upper⟩
  · rw [same]
  · obtain ⟨upperLetter, lowerLetter⟩ := letters place less
    constructor
    · rintro rfl
      rw [upper, upperLetter] at notLetter
      cases notLetter
    · rintro rfl
      rw [lower, lowerLetter] at notLetter
      cases notLetter

theorem toUpper_of_member {member : Char → Bool}
    (letters : ∀ place < 26, member (Char.ofNat (97 + place)) = false) {c : Char}
    (inside : member c = true) : c.toUpper = c := by
  rcases toUpper_cases c with same | ⟨place, less, rfl, _⟩
  · exact same
  · rw [letters place less] at inside
    cases inside

theorem capitals_cons (c : Char) (rest : List Char) :
    capitals (c :: rest) = c.toUpper :: capitals rest :=
  rfl

/-! ## The capital form -/

def outerCapital (inside : Bool) (c : Char) : Char :=
  if inside then c else c.toUpper

/-- The capital form of a text outside its literals; the flag tells whether the text starts inside
one. -/
def outerCapitals (inside : Bool) : List Char → List Char
  | [] => []
  | c :: rest => outerCapital inside c :: outerCapitals (if c = '"' then !inside else inside) rest

theorem outerCapitals_nil (inside : Bool) : outerCapitals inside [] = [] :=
  rfl

theorem outerCapitals_cons (inside : Bool) (c : Char) (rest : List Char) :
    outerCapitals inside (c :: rest) =
      outerCapital inside c :: outerCapitals (if c = '"' then !inside else inside) rest :=
  rfl

theorem outerCapital_eq_iff {d : Char} (notLetter : d.isAlpha = false) {inside : Bool} {c : Char} :
    outerCapital inside c = d ↔ c = d := by
  cases inside with
  | true => exact Iff.rfl
  | false => exact toUpper_eq_iff notLetter

@[simp]
theorem outerCapital_eq_quote {inside : Bool} {c : Char} :
    outerCapital inside c = '"' ↔ c = '"' :=
  outerCapital_eq_iff (by decide)

@[simp]
theorem outerCapital_eq_opening {inside : Bool} {c : Char} :
    outerCapital inside c = '(' ↔ c = '(' :=
  outerCapital_eq_iff (by decide)

@[simp]
theorem outerCapital_eq_closing {inside : Bool} {c : Char} :
    outerCapital inside c = ')' ↔ c = ')' :=
  outerCapital_eq_iff (by decide)

theorem toUpper_outerCapital (inside : Bool) (c : Char) :
    (outerCapital inside c).toUpper = c.toUpper := by
  cases inside <;> simp [outerCapital]

theorem IgnoresCase.outerCapital {α : Type} {property : Char → α} (ignores : IgnoresCase property)
    (inside : Bool) (c : Char) : property (outerCapital inside c) = property c := by
  cases inside with
  | true => rfl
  | false => exact ignores c

theorem outerCapitals_append (inside : Bool) (first second : List Char) :
    outerCapitals inside (first ++ second) =
      outerCapitals inside first ++ outerCapitals (endsQuoted inside first) second := by
  induction first generalizing inside with
  | nil => rfl
  | cons c rest ih => simp only [List.cons_append, outerCapitals_cons, endsQuoted, ih]

@[simp]
theorem length_outerCapitals (inside : Bool) (text : List Char) :
    (outerCapitals inside text).length = text.length := by
  induction text generalizing inside with
  | nil => rfl
  | cons c rest ih => simp only [outerCapitals_cons, List.length_cons, ih]

theorem take_outerCapitals (inside : Bool) (text : List Char) (count : Nat) :
    (outerCapitals inside text).take count = outerCapitals inside (text.take count) := by
  induction text generalizing inside count with
  | nil => rw [outerCapitals_nil, List.take_nil, outerCapitals_nil]
  | cons c rest ih =>
      cases count with
      | zero => rfl
      | succ count =>
          rw [outerCapitals_cons, List.take_succ_cons, ih, List.take_succ_cons, outerCapitals_cons]

@[simp]
theorem isEmpty_outerCapitals (inside : Bool) (text : List Char) :
    (outerCapitals inside text).isEmpty = text.isEmpty := by
  cases text <;> rfl

theorem IgnoresCase.map_outerCapitals {α : Type} {property : Char → α}
    (ignores : IgnoresCase property) (inside : Bool) (text : List Char) :
    (outerCapitals inside text).map property = text.map property := by
  induction text generalizing inside with
  | nil => rfl
  | cons c rest ih => simp only [outerCapitals_cons, List.map_cons, ignores.outerCapital, ih]

theorem capitals_outerCapitals (inside : Bool) (text : List Char) :
    capitals (outerCapitals inside text) = capitals text :=
  have ignores : IgnoresCase Char.toUpper := fun c => by simp
  ignores.map_outerCapitals inside text

theorem endsQuoted_outerCapitals (start inside : Bool) (text : List Char) :
    endsQuoted start (outerCapitals inside text) = endsQuoted start text := by
  induction text generalizing start inside with
  | nil => rfl
  | cons c rest ih => simp only [outerCapitals_cons, endsQuoted, outerCapital_eq_quote, ih]

theorem outerCapitals_of_no_quote {text : List Char} (noQuote : '"' ∉ text) :
    outerCapitals true text = text ∧ outerCapitals false text = capitals text := by
  induction text with
  | nil => exact ⟨rfl, rfl⟩
  | cons c rest ih =>
      obtain ⟨notQuote, noQuote⟩ : '"' ≠ c ∧ '"' ∉ rest := by simpa using noQuote
      obtain ⟨within, without⟩ := ih noQuote
      simp only [outerCapitals_cons, if_neg (Ne.symm notQuote), within, without]
      exact ⟨rfl, rfl⟩

theorem outerCapitals_eq_self {text : List Char} (raised : ∀ c ∈ text, c.toUpper = c)
    (inside : Bool) : outerCapitals inside text = text := by
  induction text generalizing inside with
  | nil => rfl
  | cons c rest ih =>
      have same : outerCapital inside c = c := by
        cases inside with
        | true => rfl
        | false => exact raised c List.mem_cons_self
      rw [outerCapitals_cons, same, ih fun d member => raised d (List.mem_cons_of_mem _ member)]

theorem outerCapitals_eq_iff {target : List Char} (noLetter : ∀ d ∈ target, d.isAlpha = false)
    {inside : Bool} {text : List Char} : outerCapitals inside text = target ↔ text = target := by
  induction text generalizing inside target with
  | nil => exact Iff.rfl
  | cons c rest ih =>
      cases target with
      | nil => simp [outerCapitals_cons]
      | cons d more =>
          obtain ⟨here, later⟩ := List.forall_mem_cons.mp noLetter
          simp only [outerCapitals_cons, List.cons.injEq, outerCapital_eq_iff here, ih later]

theorem IgnoresCase.span_outerCapitals {member : Char → Bool} (ignores : IgnoresCase member)
    (noQuote : member '"' = false) (inside : Bool) (text : List Char) :
    (outerCapitals inside text).takeWhile member = outerCapitals inside (text.takeWhile member) ∧
      (outerCapitals inside text).dropWhile member =
        outerCapitals inside (text.dropWhile member) := by
  induction text with
  | nil => exact ⟨rfl, rfl⟩
  | cons c rest ih =>
      have here := ignores.outerCapital inside c
      cases isMember : member c with
      | false =>
          rw [outerCapitals_cons, List.takeWhile_cons_of_neg (by simp [here, isMember]),
            List.dropWhile_cons_of_neg (by simp [here, isMember]),
            List.takeWhile_cons_of_neg (by simp [isMember]),
            List.dropWhile_cons_of_neg (by simp [isMember])]
          exact ⟨rfl, rfl⟩
      | true =>
          have notQuote : c ≠ '"' := by
            rintro rfl
            rw [noQuote] at isMember
            cases isMember
          rw [outerCapitals_cons, if_neg notQuote, List.takeWhile_cons_of_pos (here.trans isMember),
            List.dropWhile_cons_of_pos (here.trans isMember), List.takeWhile_cons_of_pos isMember,
            List.dropWhile_cons_of_pos isMember, outerCapitals, if_neg notQuote, ih.1, ih.2]
          exact ⟨rfl, rfl⟩

theorem trimEnd_cons (c : Char) (rest : List Char) :
    trimEnd (c :: rest) = if trimEnd rest = [] ∧ isBlank c then [] else c :: trimEnd rest := by
  unfold trimEnd
  rw [List.reverse_cons, List.dropWhile_append]
  cases remaining : rest.reverse.dropWhile isBlank with
  | nil => cases blank : isBlank c <;> simp [blank]
  | cons d more => simp

theorem trimEnd_outerCapitals (inside : Bool) (text : List Char) :
    trimEnd (outerCapitals inside text) = outerCapitals inside (trimEnd text) := by
  induction text generalizing inside with
  | nil => rfl
  | cons c rest ih =>
      have empty (inside : Bool) (text : List Char) : outerCapitals inside text = [] ↔ text = [] :=
        outerCapitals_eq_iff (by simp)
      rw [outerCapitals_cons, trimEnd_cons, trimEnd_cons, ih]
      simp only [empty, ignoresCase_isBlank.outerCapital]
      split
      · rfl
      · rw [outerCapitals_cons]

theorem trim_outerCapitals (inside : Bool) (text : List Char) :
    trim (outerCapitals inside text) = outerCapitals inside (trim text) := by
  obtain ⟨_, dropped⟩ := ignoresCase_isBlank.span_outerCapitals (by decide) inside text
  rw [trim, dropped, trimEnd_outerCapitals, trim]

theorem outerCapitals_quote (content : List Char) :
    outerCapitals false (quote content) = quote content := by
  have within :
      outerCapitals true (doubleQuotes content ++ ['"']) = doubleQuotes content ++ ['"'] := by
    induction content with
    | nil => rfl
    | cons c rest ih =>
        by_cases isQuote : c = '"'
        · subst isQuote
          simpa [doubleQuotes, outerCapitals_cons, outerCapital] using ih
        · simpa [doubleQuotes, isQuote, outerCapitals_cons, outerCapital] using ih
  rw [quote, outerCapitals_cons, outerCapital_eq_quote.mpr rfl]
  simpa using within

/-- What a literal spells does not change, and what follows it is in capitals. -/
theorem takeQuoted_outerCapitals (text : List Char) :
    takeQuoted (outerCapitals true text) =
      (takeQuoted text).map fun (content, after) => (content, outerCapitals false after) := by
  fun_induction takeQuoted text with
  | case1 => rfl
  | case2 rest ih =>
      have doubled : outerCapitals true ('"' :: '"' :: rest) =
          '"' :: '"' :: outerCapitals true rest := rfl
      rw [doubled, takeQuoted, ih]
      cases takeQuoted rest <;> rfl
  | case3 rest single =>
      have closed : outerCapitals true ('"' :: rest) = '"' :: outerCapitals false rest := rfl
      rw [closed]
      cases rest with
      | nil => rfl
      | cons d more =>
          have other : d ≠ '"' := by
            rintro rfl
            exact single more rfl
          simp [outerCapitals_cons, takeQuoted, other]
  | case4 c rest notDouble notQuote ih =>
      have other : c ≠ '"' := by simpa using notQuote
      have kept : outerCapitals true (c :: rest) = c :: outerCapitals true rest := by
        simp [outerCapitals_cons, outerCapital, other]
      have step : takeQuoted (c :: outerCapitals true rest) =
          (takeQuoted (outerCapitals true rest)).map fun (text, after) => (c :: text, after) := by
        simp [takeQuoted, other]
      rw [kept, step, ih]
      cases takeQuoted rest <;> rfl

theorem unquote?_outerCapitals (text : List Char) :
    unquote? (outerCapitals false text) = unquote? text := by
  cases text with
  | nil => rfl
  | cons c rest =>
      by_cases isQuote : c = '"'
      · subst isQuote
        have opened : outerCapitals false ('"' :: rest) = '"' :: outerCapitals true rest := rfl
        rw [opened, unquote?, unquote?, takeQuoted_outerCapitals]
        cases read : takeQuoted rest with
        | none => rfl
        | some result =>
            obtain ⟨content, after⟩ := result
            cases after <;> rfl
      · simp [outerCapitals_cons, unquote?, isQuote]

theorem maskFrom_outerCapitals (inside : Bool) (text : List Char) :
    maskFrom inside (outerCapitals inside text) = capitals (maskFrom inside text) := by
  induction text generalizing inside with
  | nil => rfl
  | cons c rest ih =>
      by_cases isQuote : c = '"'
      · subst isQuote
        have kept : outerCapital inside '"' = '"' := outerCapital_eq_quote.mpr rfl
        simp only [outerCapitals_cons, kept, maskFrom, if_true, ih]
        rfl
      · simp only [outerCapitals_cons, maskFrom, outerCapital_eq_quote, if_neg isQuote, ih]
        cases inside <;> rfl

end Worksheet
