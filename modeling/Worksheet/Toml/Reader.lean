import Worksheet.Toml.Word

/-!
# Reading TOML

A reader takes a part off the front of a text or fails. A document is a sequence of comments,
headers and entries, each on a line of its own, though a text in three quotes and a list may reach
over several lines. Lists and inline tables nest to a limited depth, and a key has a limited number
of parts.
-/

set_option autoImplicit false

namespace Worksheet.Toml

abbrev Reader := StateT (List Char) Option

namespace Reader

/-- How deep values may nest and how many parts a key may have. -/
def depthLimit : Nat := 79

def takeWhile (kind : Char → Bool) : Reader (List Char) :=
  modifyGet (List.span kind)

def takeOne (kind : Char → Bool) : Reader Char := do
  match ← get with
  | c :: rest => if kind c then set rest; return c else failure
  | [] => failure

def expect (given : List Char) : Reader Unit := do
  let rest ← get
  if given.isPrefixOf rest then set (rest.drop given.length) else failure

def sees (given : List Char) : Reader Bool := do
  return given.isPrefixOf (← get)

def takeIf (given : List Char) : Reader Bool := do
  if ← sees given then
    expect given
    return true
  else return false

/-- Takes parts up to an end, which is taken too. Each part has at least one character, so no more
are tried than there are characters. -/
def partsUntil {α : Type} (part : Reader α) (ending : Reader Bool) : Reader (List α) := do
  loop (← get).length
where
  loop : Nat → Reader (List α)
    | 0 => do if ← ending then return [] else failure
    | count + 1 => do
        if ← ending then return []
        let first ← part
        return first :: (← loop count)

def isSpace (c : Char) : Bool :=
  c = ' ' || c = '\t'

def isPrintable (c : Char) : Bool :=
  c = '\t' || 32 ≤ c.toNat && c.toNat ≠ 127

def skipSpaces : Reader Unit := do
  let _ ← takeWhile isSpace

def takeLineEnd : Reader Bool := do
  if ← takeIf ['\n'] then return true
  takeIf ['\r', '\n']

def skipComment : Reader Unit := do
  if ← sees ['#'] then let _ ← takeWhile isPrintable

def endLine : Reader Unit := do
  skipSpaces
  skipComment
  if (← get).isEmpty then return
  if ← takeLineEnd then return else failure

def skipLines : Reader Unit := do
  loop (← get).length
where
  loop : Nat → Reader Unit
    | 0 => skipSpaces
    | count + 1 => do
        skipSpaces
        skipComment
        if ← takeLineEnd then loop count

def coded (count : Nat) : Reader Char := do
  let digits := (← get).take count
  let code := numberOfDigits 16 digits
  if digits.length = count ∧ digits.all isHexDigit ∧ code.isValidChar then
    modify (List.drop count)
    return Char.ofNat code
  else failure

def escapedChar : Reader Char := do
  match ← takeOne fun _ => true with
  | 'b' => return '\x08'
  | 't' => return '\t'
  | 'n' => return '\n'
  | 'f' => return '\x0c'
  | 'r' => return '\r'
  | '"' => return '"'
  | '\\' => return '\\'
  | 'u' => coded 4
  | 'U' => coded 8
  | _ => failure

/-- A text on one line, up to the quote that closes it. Only a text in double quotes has escapes. -/
def lineText (mark : Char) : Reader (List Char) :=
  partsUntil
    (do
      let c ← takeOne isPrintable
      if c = '\\' ∧ mark = '"' then escapedChar else return c)
    (takeIf [mark])

/-- A piece of a text over several lines. A backslash at the end of a line joins the next one
without the blanks in front of it. -/
def blockPiece (mark : Char) : Reader (List Char) := do
  if ← takeLineEnd then return ['\n']
  let c ← takeOne isPrintable
  if c = '\\' ∧ mark = '"' then
    let after ← get
    skipSpaces
    if ← takeLineEnd then
      let _ ← partsUntil
        (do if ← takeLineEnd then return else let _ ← takeOne isSpace)
        (return (← get).head?.all fun c => !isSpace c && c ≠ '\n' && c ≠ '\r')
      return []
    else
      set after
      return [← escapedChar]
  else return [c]

/-- A text over several lines, up to the three quotes that close it. Up to two more quotes in front
of these belong to the text. A line end right at the start does not. -/
def blockText (mark : Char) : Reader (List Char) := do
  let _ ← takeLineEnd
  let pieces ← partsUntil (blockPiece mark) (return (← sees [mark, mark, mark]))
  let quotes := ((← get).takeWhile (· = mark)).take 5
  modify (List.drop quotes.length)
  return pieces.flatten ++ quotes.drop 3

def quotedText (mark : Char) : Reader (List Char) := do
  if ← takeIf [mark, mark, mark] then blockText mark
  else
    expect [mark]
    lineText mark

def isBareKeyChar (c : Char) : Bool :=
  c.isAlphanum || c = '_' || c = '-'

def keyPart : Reader (List Char) := do
  skipSpaces
  let part ←
    if ← takeIf ['"'] then lineText '"'
    else if ← takeIf ['\''] then lineText '\''
    else pure ((← takeOne isBareKeyChar) :: (← takeWhile isBareKeyChar))
  skipSpaces
  return part

def key : Reader (List (List Char) × List Char) := do
  let first ← keyPart
  let others ← partsUntil (do expect ['.']; keyPart) (return !(← sees ['.']))
  if others.length < depthLimit then
    return ((first :: others).dropLast, (first :: others).getLast?.getD first)
  else failure

def isWordChar (c : Char) : Bool :=
  c.isAlphanum || c = '_' || c = '-' || c = '+' || c = '.' || c = ':'

/-- A word. A date and a time may stand apart. -/
def word : Reader Toml := do
  let first ← takeWhile isWordChar
  let whole ← match afterDate? first, ← get with
    | some [], ' ' :: c :: rest =>
        if c.isDigit then
          set (c :: rest)
          pure (first ++ ' ' :: (← takeWhile isWordChar))
        else pure first
    | _, _ => pure first
  (ofWord? whole : Option Toml)

def items (value : Reader Toml) : Reader (List Toml) := do
  skipLines
  partsUntil
    (do
      let item ← value
      skipLines
      if !(← takeIf [',']) then
        if !(← sees [']']) then failure
      skipLines
      return item)
    (takeIf [']'])

def entries (value : Reader Toml) : Reader Toml := do
  skipSpaces
  if ← takeIf ['\x7d'] then return table .inline []
  let first ← entry
  let others ← partsUntil (do expect [',']; entry) (takeIf ['\x7d'])
  let whole ← (first :: others).foldlM
    (fun whole ((path, last), value) => (whole.insert path last value : Option Toml)) empty
  match whole with
  | table _ inner => return table .inline inner
  | other => return other
where
  entry : Reader ((List (List Char) × List Char) × Toml) := do
    let name ← key
    expect ['=']
    skipSpaces
    let content ← value
    skipSpaces
    return (name, content)

def value : Nat → Reader Toml
  | 0 => scalar
  | levels + 1 => do
      if ← takeIf ['['] then return list (← items (value levels))
      else if ← takeIf ['\x7b'] then entries (value levels)
      else scalar
where
  scalar : Reader Toml := do
    if ← sees ['"'] then return text (← quotedText '"')
    else if ← sees ['\''] then return text (← quotedText '\'')
    else word

/-- What has been read of a document, and the path of the table to which entries belong. -/
structure Progress where
  document : Toml := empty
  path : List (List Char) := []

def header (progress : Progress) : Reader Progress := do
  expect ['[']
  let repeated ← takeIf ['[']
  let (path, last) ← key
  expect (if repeated then [']', ']'] else [']'])
  endLine
  let document ←
    ((if repeated then progress.document.extend path last
      else progress.document.define path last) : Option Toml)
  return ⟨document, path ++ [last]⟩

def line (progress : Progress) : Reader Progress := do
  let (path, last) ← key
  expect ['=']
  skipSpaces
  let content ← value depthLimit
  endLine
  let document ←
    (progress.document.changeAt false progress.path fun table =>
      table.insert path last content : Option Toml)
  return { progress with document }

def statements : Nat → Progress → Reader Toml
  | 0, progress => return progress.document
  | count + 1, progress => do
      skipSpaces
      match ← get with
      | [] => return progress.document
      | c :: _ =>
          if c = '[' then statements count (← header progress)
          else if c = '#' ∨ c = '\n' ∨ c = '\r' then
            endLine
            statements count progress
          else statements count (← line progress)

end Reader

/-- Reads a document. A byte order mark at the start does not count. -/
def ofText? (input : List Char) : Option Toml :=
  let input := match input with
    | '\ufeff' :: rest => rest
    | _ => input
  ((Reader.statements (input.length + 1) {}).run input).map Prod.fst

end Worksheet.Toml
