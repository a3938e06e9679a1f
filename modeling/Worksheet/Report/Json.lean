import Worksheet.Number.Spelling

/-!
# Documents in JSON

A document is written with each member of a list or an object on a line of its own, indented by
two spaces for each level. An empty list or object stays on its line. In a text, quotes,
backslashes and control characters are escaped, and everything else stands for itself.
-/

set_option autoImplicit false

namespace Worksheet

inductive Json where
  | boolean (b : Bool)
  | number (x : Float)
  | text (content : List Char)
  | list (items : List Json)
  | object (members : List (String × Json))

namespace Json

def escaped (c : Char) : List Char :=
  match c with
  | '"' => ['\\', '"']
  | '\\' => ['\\', '\\']
  | '\n' => ['\\', 'n']
  | '\r' => ['\\', 'r']
  | '\t' => ['\\', 't']
  | '\x08' => ['\\', 'b']
  | '\x0c' => ['\\', 'f']
  | _ =>
      if c.toNat < 32 then
        ['\\', 'u', '0', '0', Nat.digitChar (c.toNat / 16), Nat.digitChar (c.toNat % 16)]
      else [c]

def quoted (content : List Char) : List Char :=
  '"' :: (content.flatMap escaped ++ ['"'])

def newLine (level : Nat) : List Char :=
  '\n' :: List.replicate (2 * level) ' '

def enclosed (opening closing : Char) (level : Nat) : List (List Char) → List Char
  | [] => [opening, closing]
  | members =>
      opening :: newLine (level + 1) ++
        (',' :: newLine (level + 1)).intercalate members ++ newLine level ++ [closing]

mutual

/-- Writes a document whose first line stands at a level of indentation. -/
def render (level : Nat) : Json → List Char
  | boolean b => (toString b).toList
  | number x => reportNumber x
  | text content => quoted content
  | list items => enclosed '[' ']' level (renderItems (level + 1) items)
  | object members => enclosed '\x7b' '\x7d' level (renderMembers (level + 1) members)

def renderItems (level : Nat) : List Json → List (List Char)
  | [] => []
  | item :: rest => render level item :: renderItems level rest

def renderMembers (level : Nat) : List (String × Json) → List (List Char)
  | [] => []
  | (key, value) :: rest =>
      (quoted key.toList ++ ':' :: ' ' :: render level value) :: renderMembers level rest

end

end Json

end Worksheet
