/-!
# Numbers of arguments

A function takes at least so many arguments and at most so many, or any number from the least on.
-/

set_option autoImplicit false

namespace Worksheet

structure Arity where
  least : Nat
  most : Option Nat
deriving DecidableEq, Repr

namespace Arity

def any : Arity := ⟨0, none⟩

def exactly (count : Nat) : Arity := ⟨count, some count⟩

def between (least most : Nat) : Arity := ⟨least, some most⟩

def admits (arity : Arity) (count : Nat) : Bool :=
  arity.least ≤ count && arity.most.all (count ≤ ·)

def inWords (arity : Arity) : String :=
  match arity.most with
  | some most =>
      if most = arity.least then toString most
      else toString arity.least ++ " to " ++ toString most
  | none => "at least " ++ toString arity.least

end Arity

end Worksheet
