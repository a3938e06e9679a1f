import Mathlib
import Worksheet.Proofs.Expression.Clash
import Worksheet.Proofs.Text.Case

/-!
# Letter case in expressions

No token holds a letter outside literals. So a text and its capital form have the same tokens, or
the same fault in them, and the same value.
-/

set_option autoImplicit false

namespace Worksheet

namespace Token

theorem ignoresCase_isNumberChar : IgnoresCase isNumberChar :=
  ignoresCase_of_letters (by decide)

theorem toUpper_of_isNumberChar {c : Char} (numeric : isNumberChar c = true) : c.toUpper = c :=
  toUpper_of_member (by decide) numeric

theorem symbol?_less {rest : List Char} (short : ∀ c ∈ rest.head?, c ≠ '>' ∧ c ≠ '=') :
    symbol? ('<' :: rest) = some (operator (.compare .less), rest) := by
  cases rest with
  | nil => rfl
  | cons c more =>
      obtain ⟨notGreater, notEqual⟩ := short c rfl
      simp [symbol?, notGreater, notEqual]

theorem symbol?_greater {rest : List Char} (short : ∀ c ∈ rest.head?, c ≠ '=') :
    symbol? ('>' :: rest) = some (operator (.compare .greater), rest) := by
  cases rest with
  | nil => rfl
  | cons c more => simp [symbol?, short c rfl]

theorem head?_outerCapitals (inside : Bool) (text : List Char) :
    (outerCapitals inside text).head? = text.head?.map (outerCapital inside) := by
  cases text <;> rfl

theorem symbol?_outerCapitals_of_some {text rest : List Char} {token : Token}
    (found : symbol? text = some (token, rest)) :
    symbol? (outerCapitals false text) = some (token, outerCapitals false rest) := by
  have short {property : Char → Prop} {text : List Char}
      (holds : ∀ c ∈ text.head?, property (outerCapital false c)) :
      ∀ c ∈ (outerCapitals false text).head?, property c := by
    rw [head?_outerCapitals]
    simpa using holds
  have stays {c d : Char} (notLetter : d.isAlpha = false) (other : c ≠ d) :
      outerCapital false c ≠ d := mt (outerCapital_eq_iff notLetter).mp other
  unfold symbol? at found
  split at found <;> cases found
  case h_10 notWide notAtMost =>
    refine symbol?_less (short fun c isFirst => ?_)
    obtain ⟨more, rfl⟩ := List.head?_eq_some_iff.mp isFirst
    exact ⟨stays (by decide) fun same => notWide more (by rw [same]),
      stays (by decide) fun same => notAtMost more (by rw [same])⟩
  case h_12 notAtLeast =>
    refine symbol?_greater (short fun c isFirst => ?_)
    obtain ⟨more, rfl⟩ := List.head?_eq_some_iff.mp isFirst
    exact stays (by decide) fun same => notAtLeast more (by rw [same])
  all_goals rfl

theorem symbol?_outerCapitals (text : List Char) :
    symbol? (outerCapitals false text) =
      (symbol? text).map fun (token, rest) => (token, outerCapitals false rest) := by
  have ignores : IgnoresCase isSymbolChar := ignoresCase_of_letters (by decide)
  cases found : symbol? text with
  | some result => exact symbol?_outerCapitals_of_some found
  | none =>
      have none := isSome_symbol? (outerCapitals false text)
      rw [head?_outerCapitals, Option.any_map, funext fun c => ignores.outerCapital false c,
        ← isSome_symbol?, found] at none
      simpa using none

theorem first?_outerCapitals (text : List Char) :
    first? (outerCapitals false text) =
      (first? text).map fun (token, rest) => (token, outerCapitals false rest) := by
  cases text with
  | nil => rfl
  | cons c rest =>
      by_cases isQuote : c = '"'
      · subst isQuote
        have opened : outerCapitals false ('"' :: rest) = '"' :: outerCapitals true rest := rfl
        rw [opened, first?, first?, takeQuoted_outerCapitals]
        cases takeQuoted rest <;> rfl
      · have stays : outerCapital false c ≠ '"' := by rwa [Ne, outerCapital_eq_quote]
        obtain ⟨taken, dropped⟩ :=
          ignoresCase_isNumberChar.span_outerCapitals (by decide) false (c :: rest)
        have numeric : outerCapitals false ((c :: rest).takeWhile isNumberChar) =
            (c :: rest).takeWhile isNumberChar :=
          outerCapitals_eq_self
            (fun d member => toUpper_of_isNumberChar (List.mem_takeWhile_imp member)) false
        rw [numeric] at taken
        have symbols := symbol?_outerCapitals (c :: rest)
        rw [outerCapitals_cons] at taken dropped symbols ⊢
        rw [first?_of_ne_quote stays, first?_of_ne_quote isQuote, taken, dropped, symbols]
        split
        · cases symbol? (c :: rest) <;> rfl
        · split <;> rfl

theorem ofText_outerCapitals (text : List Char) :
    ofText (outerCapitals false text) = ofText text := by
  fun_induction ofText text with
  | case1 => rw [outerCapitals_nil, ofText_nil]
  | case2 c rest blank ih =>
      have notQuote : c ≠ '"' := by
        rintro rfl
        exact absurd blank (by decide)
      rw [outerCapitals_cons, if_neg notQuote,
        ofText_blank ((ignoresCase_isBlank.outerCapital false c).trans blank), ih]
  | case3 c rest visible fault failed =>
      have read := first?_outerCapitals (c :: rest)
      rw [failed] at read
      have visible' : isBlank (outerCapital false c) = false :=
        (ignoresCase_isBlank.outerCapital false c).trans (by simpa using visible)
      exact ofText_of_error visible' read
  | case4 c rest visible token after found ih =>
      have read := first?_outerCapitals (c :: rest)
      rw [found] at read
      have visible' : isBlank (outerCapital false c) = false :=
        (ignoresCase_isBlank.outerCapital false c).trans (by simpa using visible)
      rw [outerCapitals_cons, ofText_of_first? visible' read, ih]

end Token

namespace Expression

theorem valueOf_outerCapitals (text : List Char) :
    valueOf (outerCapitals false text) = valueOf text := by
  unfold valueOf
  rw [Token.ofText_outerCapitals]

theorem arithmeticOf_outerCapitals (text : List Char) :
    arithmeticOf (outerCapitals false text) = arithmeticOf text := by
  have ignores : IgnoresCase isArithmeticChar := ignoresCase_of_letters (by decide)
  have all (text : List Char) : text.all isArithmeticChar = (text.map isArithmeticChar).all id := by
    simp
  unfold arithmeticOf
  rw [all, ignores.map_outerCapitals, ← all, valueOf_outerCapitals]

end Expression

end Worksheet
