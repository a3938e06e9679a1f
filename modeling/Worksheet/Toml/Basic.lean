/-!
# TOML documents

A document is a table whose values are texts, numbers, truth values, dates, lists and tables. The
origin of a table decides what may still be added to it: nobody defines a table twice, keys with
dots extend only tables that such keys have made, and a table written inline is complete.
-/

set_option autoImplicit false

namespace Worksheet

/-- How a table came about. -/
inductive Toml.Origin where
  /-- From a header of its own; also the document itself. -/
  | header
  /-- On the way to another table that has a header. -/
  | passed
  /-- From a key with dots. -/
  | dotted
  /-- Written as a value. -/
  | inline
deriving DecidableEq, Repr

inductive Toml where
  | text (content : List Char)
  | integer (n : Int)
  | boolean (b : Bool)
  | float (x : Float)
  /-- A date, a time, or both, as it is written. -/
  | moment (written : List Char)
  | list (items : List Toml)
  | table (origin : Toml.Origin) (entries : List (List Char × Toml))
  /-- Tables under headers of one name, the last one apart. -/
  | tables (earlier : List Toml) (last : Toml)

namespace Toml

def empty : Toml :=
  table .header []

/-- Sets the value of a key, in its old place if the key is there. -/
def setEntry (key : List Char) (value : Toml) (entries : List (List Char × Toml)) :
    List (List Char × Toml) :=
  if (entries.lookup key).isSome then
    entries.map fun entry => if entry.1 = key then (key, value) else entry
  else entries ++ [(key, value)]

/-- Changes a table on the way along a path, or the last of several. Keys with dots do not pass
through a table that has a header. -/
def enter (document : Toml) (dots : Bool) (change : Toml → Option Toml) : Option Toml :=
  match document with
  | table .inline _ => none
  | table .header _ => if dots then none else change document
  | table _ _ => change document
  | tables earlier last => (change last).map (tables earlier)
  | _ => none

/-- Changes the table at the end of a path and makes those that the path lacks. -/
def changeAt (document : Toml) (dots : Bool) (path : List (List Char))
    (change : Toml → Option Toml) : Option Toml :=
  match path, document with
  | [], _ => change document
  | key :: path, table origin entries => do
      let fresh := table (if dots then .dotted else .passed) []
      let inner := (entries.lookup key).getD fresh
      let changed ← inner.enter dots fun child => child.changeAt dots path change
      return table origin (setEntry key changed entries)
  | _, _ => none

def insert (document : Toml) (path : List (List Char)) (key : List Char) (value : Toml) :
    Option Toml :=
  document.changeAt true path fun
    | table origin entries =>
        if (origin = .dotted ↔ path = []) ∨ (entries.lookup key).isSome then none
        else some (table origin (entries ++ [(key, value)]))
    | _ => none

def define (document : Toml) (path : List (List Char)) (key : List Char) : Option Toml :=
  document.changeAt false path fun
    | table origin entries =>
        match entries.lookup key with
        | none => some (table origin (setEntry key empty entries))
        | some (table .passed inner) =>
            some (table origin (setEntry key (table .header inner) entries))
        | some _ => none
    | _ => none

def extend (document : Toml) (path : List (List Char)) (key : List Char) : Option Toml :=
  document.changeAt false path fun
    | table origin entries =>
        match entries.lookup key with
        | none => some (table origin (setEntry key (tables [] empty) entries))
        | some (tables earlier last) =>
            some (table origin (setEntry key (tables (earlier ++ [last]) empty) entries))
        | some _ => none
    | _ => none

def get? (document : Toml) (key : List Char) : Option Toml :=
  match document with
  | table _ entries => entries.lookup key
  | _ => none

end Toml

end Worksheet
