/-!
# Rounding a quotient

`roundDiv` rounds a quotient of naturals to the nearest natural. Only a quotient that lies
exactly between two of them needs a rule, and the rule is an argument.
-/

set_option autoImplicit false

namespace Worksheet

inductive Tie where
  | toEven
  | up
deriving DecidableEq, Repr

def Tie.settle (below : Nat) : Tie → Nat
  | .toEven => if below % 2 = 0 then below else below + 1
  | .up => below + 1

def roundDiv (tie : Tie) (n d : Nat) : Nat :=
  match compare (2 * (n % d)) d with
  | .lt => n / d
  | .gt => n / d + 1
  | .eq => tie.settle (n / d)

end Worksheet
