import Worksheet.Expression.Token

/-!
# Reading expressions

The reader goes through the tokens once, from left to right, and keeps a stack of frames: what it
has begun and still needs an operand for, the innermost first. An operator first closes the
frames that bind at least as tightly as itself, so chains of equal strength lean to the left. A
comparison closes sums and products only, because there is at most one on each level.

Every list of tokens is read to an expression. Where the grammar is left, the expression breaks
off, and the frames around the break are closed over it.
-/

set_option autoImplicit false

namespace Worksheet

/-- How many groups and signs may stand one inside the other. -/
def groupLimit : Nat := 256

/-- Something that still needs its last operand. -/
inductive Frame where
  | sign (negative : Bool)
  | binary (left : Expression) (operator : Operator)
  | group
deriving DecidableEq

def Operator.strength : Operator → Nat
  | compare _ => 1
  | add | subtract => 2
  | multiply | divide => 3

namespace Frame

def strength : Frame → Nat
  | group => 0
  | binary _ operator => operator.strength
  | sign _ => 4

def fill : Frame → Expression → Expression
  | sign negative, operand => .sign negative operand
  | binary left operator, operand => .binary operator left operand
  | group, operand => .group operand

def isNesting : Frame → Bool
  | binary _ _ => false
  | _ => true

end Frame

namespace Expression

def fillAll (frames : List Frame) (operand : Expression) : Expression :=
  frames.foldl (fun inner frame => frame.fill inner) operand

/-- Closes the frames that bind at least as tightly as the given strength. -/
def settle (strength : Nat) : List Frame → Expression → List Frame × Expression
  | [], operand => ([], operand)
  | frame :: frames, operand =>
      if strength ≤ frame.strength then settle strength frames (frame.fill operand)
      else (frame :: frames, operand)

/-- The frames left open when the expression ends belong to a group that is never closed. -/
def finish (frames : List Frame) (operand : Expression) : Expression :=
  match settle 1 frames operand with
  | ([], whole) => whole
  | (_ :: outer, whole) => fillAll outer (.spoiled whole .unbalancedParentheses)

/-- A token that continues nothing spoils the group around it, or else the whole. -/
def interrupt (frames : List Frame) (operand : Expression) : Expression :=
  match settle 1 frames operand with
  | ([], whole) => .spoiled whole (.invalidExpression .unexpectedToken)
  | (_ :: outer, whole) => fillAll outer (.spoiled whole .unbalancedParentheses)

def isComparing : List Frame → Bool
  | .binary _ (.compare _) :: _ => true
  | _ => false

/-- The frame that a token opens where an operand is due: a sign or a group. -/
def openedBy? : Token → Option Frame
  | .operator .add => some (.sign false)
  | .operator .subtract => some (.sign true)
  | .opening => some .group
  | _ => none

def misplaced : Token → FormulaError
  | .closing => .unbalancedParentheses
  | _ => .invalidExpression .unexpectedOperator

mutual

def readOperand (frames : List Frame) : List Token → Expression
  | [] => fillAll frames (.missing (.invalidExpression .unexpectedEnd))
  | .number x :: rest => readOperator frames (.number x) rest
  | .text content :: rest => readOperator frames (.text content) rest
  | token :: rest =>
      match openedBy? token with
      | some frame =>
          if frames.countP Frame.isNesting < groupLimit then readOperand (frame :: frames) rest
          else fillAll frames (.missing (.tooComplex groupLimit))
      | none => fillAll frames (.missing (misplaced token))

def readOperator (frames : List Frame) (operand : Expression) : List Token → Expression
  | [] => finish frames operand
  | .operator operator :: rest =>
      match settle (max 2 operator.strength) frames operand with
      | (outer, left) =>
          if operator.strength = 1 && isComparing outer then interrupt outer left
          else readOperand (.binary left operator :: outer) rest
  | .closing :: rest =>
      match settle 1 frames operand with
      | ([], whole) => .spoiled whole (.invalidExpression .unexpectedToken)
      | (_ :: outer, whole) => readOperator outer (.group whole) rest
  | _ :: _ => interrupt frames operand

end

def ofTokens (tokens : List Token) : Expression :=
  readOperand [] tokens

end Expression

end Worksheet
