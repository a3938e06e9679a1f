import Worksheet.Settings
import Worksheet.Toml.Reader

/-!
# Reading settings

Settings are read from a document. A key that is left out keeps its default, and an unknown key
does not count. A choice is spelled by its name, or by a table whose only entry is an empty table
or list under that name.
-/

set_option autoImplicit false

namespace Worksheet

inductive SettingsError where
  | malformed
  | zeroNestingLimit
deriving DecidableEq, Repr

def SettingsError.message : SettingsError → String
  | malformed => "TOML parse error"
  | zeroNestingLimit => "max_nesting_depth must be at least 1"

namespace Settings

def choiceName? : Toml → Option (List Char)
  | .text name => some name
  | .table _ [(name, .table _ [])] => some name
  | .table _ [(name, .list [])] => some name
  | _ => none

def natural? : Toml → Option Nat
  | .integer n => if n < 0 then none else some n.toNat
  | _ => none

def boolean? : Toml → Option Bool
  | .boolean b => some b
  | _ => none

def emptyExtremum? (value : Toml) : Option EmptyExtremum := do
  let name := String.ofList (← choiceName? value)
  if name = "zero" then some .zero else if name = "error" then some .error else none

def emptyProduct? (value : Toml) : Option EmptyProduct := do
  let name := String.ofList (← choiceName? value)
  if name = "zero" then some .zero else if name = "one" then some .one else none

/-- Reads the value of a key, or takes the default if the key is left out. -/
def readKey {α : Type} (document : Toml) (key : String) (read : Toml → Option α) (default : α) :
    Option α :=
  match document.get? key.toList with
  | none => some default
  | some value => read value

def ofToml? (document : Toml) : Option Settings := do
  let defaults : Settings := {}
  return {
    nestingLimit := ← readKey document "max_nesting_depth" natural? defaults.nestingLimit
    emptyExtremum := ← readKey document "empty_min_max" emptyExtremum? defaults.emptyExtremum
    emptyProduct := ← readKey document "empty_product" emptyProduct? defaults.emptyProduct
    strictReferences :=
      ← readKey document "strict_references" boolean? defaults.strictReferences }

def ofText (text : List Char) : Except SettingsError Settings :=
  match (Toml.ofText? text).bind ofToml? with
  | none => .error .malformed
  | some settings => if settings.nestingLimit = 0 then .error .zeroNestingLimit else .ok settings

end Settings

end Worksheet
