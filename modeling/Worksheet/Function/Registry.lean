import Worksheet.Function.Library
import Worksheet.Text.Order

/-!
# Registries

A registry holds functions by name, and letter case does not count in a name. Registering a
function again replaces the one of that name. Both listings are in the order of code points: the
names in capitals, and the functions by their names as registered.
-/

set_option autoImplicit false

namespace Worksheet

/-- Functions, the latest first, with no two of one key. -/
structure Registry where
  functions : List Function := []

namespace Registry

def empty : Registry := {}

/-- Adds a function in place of any other of its name. -/
def register (registry : Registry) (function : Function) : Registry where
  functions := function :: registry.functions.filter fun other => other.key ≠ function.key

def standard : Registry :=
  Library.functions.foldl register empty

/-- The function of a name, in any case. -/
def get? (registry : Registry) (name : List Char) : Option Function :=
  registry.functions.find? fun function => function.key = capitals name

def contains (registry : Registry) (name : List Char) : Bool :=
  (registry.get? name).isSome

def names (registry : Registry) : List (List Char) :=
  (registry.functions.map Function.key).mergeSort fun a b => !precedes b a

def listing (registry : Registry) : List Function :=
  registry.functions.mergeSort fun a b => !precedes b.name a.name

end Registry

end Worksheet
