/-!
# Quoted literals

A quoted literal is a text between two quotes, with each quote inside written twice. Reading a
literal undoes writing it, and what follows the closing quote is left over.

Outside a literal a quote opens one; inside, a quote closes it, and a doubled quote closes it and
opens it again at once. So the quotes before a place decide whether it lies in a literal, and
`maskQuoted` can blank out the literals of a text in one pass.
-/

set_option autoImplicit false

namespace Worksheet

def doubleQuotes : List Char → List Char
  | [] => []
  | c :: rest => if c = '"' then '"' :: '"' :: doubleQuotes rest else c :: doubleQuotes rest

def quote (text : List Char) : List Char :=
  '"' :: (doubleQuotes text ++ ['"'])

/-- Reads a literal whose opening quote is already gone: its text, and what follows the closing
quote. There is nothing to read when the closing quote is missing. -/
def takeQuoted : List Char → Option (List Char × List Char)
  | [] => none
  | '"' :: '"' :: rest => (takeQuoted rest).map fun (text, after) => ('"' :: text, after)
  | '"' :: rest => some ([], rest)
  | c :: rest => (takeQuoted rest).map fun (text, after) => (c :: text, after)

/-- The text that a literal spells, if the whole input is one literal. -/
def unquote? : List Char → Option (List Char)
  | '"' :: rest =>
      match takeQuoted rest with
      | some (text, []) => some text
      | _ => none
  | _ => none

theorem takeQuoted_length {input text after : List Char}
    (read : takeQuoted input = some (text, after)) : after.length < input.length := by
  fun_induction takeQuoted input generalizing text after with
  | case1 => simp at read
  | case2 rest ih =>
      obtain ⟨⟨inner, left⟩, found, same⟩ := Option.map_eq_some_iff.mp read
      have shorter := ih found
      simp only [Prod.mk.injEq] at same
      simp only [List.length_cons, ← same.2]
      omega
  | case3 => simp_all
  | case4 c rest _ _ ih =>
      obtain ⟨⟨inner, left⟩, found, same⟩ := Option.map_eq_some_iff.mp read
      have shorter := ih found
      simp only [Prod.mk.injEq] at same
      simp only [List.length_cons, ← same.2]
      omega

/-- Replaces each character of a literal, its quotes included, by a space. The flag tells whether
the text starts inside a literal. -/
def maskFrom (inside : Bool) : List Char → List Char
  | [] => []
  | c :: rest =>
      if c = '"' then ' ' :: maskFrom (!inside) rest
      else (if inside then ' ' else c) :: maskFrom inside rest

def maskQuoted (text : List Char) : List Char :=
  maskFrom false text

/-- Tells whether the end of a text lies inside a literal, that is, whether one is never closed.
The flag tells where the text starts. -/
def endsQuoted (inside : Bool) : List Char → Bool
  | [] => inside
  | c :: rest => endsQuoted (if c = '"' then !inside else inside) rest

end Worksheet
