/-!
# Settings

The settings fix what the functions make of no values at all, how deep calls may nest, and
whether a reference to nothing is an error.
-/

set_option autoImplicit false

namespace Worksheet

inductive EmptyExtremum where
  | zero
  | error
deriving DecidableEq, Repr

inductive EmptyProduct where
  | zero
  | one
deriving DecidableEq, Repr

structure Settings where
  /-- How many calls may stand one inside the other. -/
  nestingLimit : Nat := 32
  emptyExtremum : EmptyExtremum := .zero
  emptyProduct : EmptyProduct := .zero
  /-- Whether a reference that resolves to no present cell is an error. -/
  strictReferences : Bool := false
deriving DecidableEq, Repr

end Worksheet
