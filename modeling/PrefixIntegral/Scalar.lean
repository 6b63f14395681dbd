/-!
The arithmetic that formulas are evaluated in. Evaluation and integration are written for any
such arithmetic; running them takes binary64, and a statement about exact arithmetic takes the
rationals. Nothing is assumed here of the operations, not even that addition associates.
-/

namespace PrefixIntegral

/-- Numbers with the operations of formulas, the domain checks, and comparisons. -/
class Scalar (α : Type) extends Add α, Sub α, Mul α, Div α where
  /-- The general power. -/
  pow : α → α → α
  sqrt : α → α
  sin : α → α
  cos : α → α
  tan : α → α
  exp : α → α
  log : α → α
  /-- The number nearest to a whole number. -/
  ofInt : Int → α
  /-- Whether a whole number is near enough to some number. -/
  reaches : Int → Bool
  /-- Whether dividing by it is refused. -/
  isZeroDivisor : α → Bool
  /-- Whether its square root and logarithm are refused. -/
  isNegative : α → Bool
  /-- Whether it stands for no number. -/
  isNaN : α → Bool
  /-- Whether the first is strictly greater than the second. -/
  exceeds : α → α → Bool
  /-- Whether both are the same number. -/
  same : α → α → Bool

namespace Scalar

-- Powers of natural numbers are the built-in ones, whatever else is imported.
attribute [local instance (high)] instPowNat

def ofNat {α : Type} [Scalar α] (n : Nat) : α := ofInt n

/-- A power whose exponent is known before its base: the inverse, one, the root, the base itself
and the square are computed as such, any other by the general rule. In binary64 the root differs
from the general rule at the negative zero and the negative infinity. -/
def power {α : Type} [Scalar α] (base exponent : α) : α :=
  if same exponent (ofInt (-1)) then ofInt 1 / base
  else if same exponent (ofInt 0) then ofInt 1
  else if same exponent (ofInt 1 / ofInt 2) then sqrt base
  else if same exponent (ofInt 1) then base
  else if same exponent (ofInt 2) then base * base
  else pow base exponent

/-- Signed zeros are ordered, the negative one first: only the positive zero is a zero divisor,
and the negative one counts as negative. What is no number is neither. -/
instance binary64 : Scalar Float where
  pow := Float.pow
  sqrt := Float.sqrt
  sin := Float.sin
  cos := Float.cos
  tan := Float.tan
  exp := Float.exp
  log := Float.log
  ofInt n := Float.ofInt n
  reaches n := (Float.ofInt n).isFinite
  isZeroDivisor x := x == 0 && x.toBits.toNat / 2 ^ (63 : Nat) == 0
  isNegative x := x.toBits.toNat / 2 ^ (63 : Nat) == 1 && x ≤ 0
  isNaN := Float.isNaN
  exceeds x y := y < x
  same x y := x == y

end Scalar

end PrefixIntegral
