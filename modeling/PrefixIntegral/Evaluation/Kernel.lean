import PrefixIntegral.Evaluation.Carrier
import PrefixIntegral.Tree.Kind

namespace PrefixIntegral

/-- A kernel was asked for a kind that it does not compute. -/
inductive KernelFault where
  | notVariadic (kind : Kind)
  | notBinary (kind : Kind)
  | notUnary (kind : Kind)
  deriving DecidableEq, Repr

def Kind.describe (kind : Kind) : String := s!"<NodeKind.{kind.name}: {kind.number}>"

def KernelFault.message : KernelFault → String
  | notVariadic kind => "Not a variadic operator: " ++ kind.describe
  | notBinary kind => "Not a binary operator: " ++ kind.describe
  | notUnary kind => "Not a unary operator: " ++ kind.describe

namespace Carrier

variable {α β : Type} [Scalar α]

def divisorIsZero (c : Carrier α β) (divisor : β) : Bool := c.any Scalar.isZeroDivisor divisor

def isNegative (c : Carrier α β) (operand : β) : Bool := c.any Scalar.isNegative operand

/-- Sums and products fold their operands from the left, starting from the neutral number. -/
def variadic (c : Carrier α β) (kind : Kind) (operands : List β) : Except KernelFault β :=
  match kind with
  | .operator .mul => .ok (operands.foldl (c.zip (· * ·)) (c.single (Scalar.ofInt 1)))
  | .operator .add => .ok (operands.foldl (c.zip (· + ·)) (c.single (Scalar.ofInt 0)))
  | _ => .error (.notVariadic kind)

def binary (c : Carrier α β) (kind : Kind) (left right : β) : Except KernelFault β :=
  match kind with
  | .operator .div => .ok (c.zip (· / ·) left right)
  | .operator .sub => .ok (c.zip (· - ·) left right)
  | .operator .pow => .ok (c.raise left right)
  | _ => .error (.notBinary kind)

/-- Functions of one operand. The square is the second power, and the cotangent the inverse of
the tangent, which is infinite rather than refused where the tangent is zero. -/
def unary (c : Carrier α β) (kind : Kind) (operand : β) : Except KernelFault β :=
  match kind with
  | .operator .sqr => .ok (c.raise operand (c.single (Scalar.ofInt 2)))
  | .operator .sqrt => .ok (c.map Scalar.sqrt operand)
  | .operator .sin => .ok (c.map Scalar.sin operand)
  | .operator .cos => .ok (c.map Scalar.cos operand)
  | .operator .tan => .ok (c.map Scalar.tan operand)
  | .operator .cot => .ok (c.map (fun a => Scalar.ofInt 1 / Scalar.tan a) operand)
  | .operator .exp => .ok (c.map Scalar.exp operand)
  | .operator .log => .ok (c.map Scalar.log operand)
  | _ => .error (.notUnary kind)

end Carrier

end PrefixIntegral
