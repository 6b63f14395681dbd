import PrefixIntegral.Evaluation.Kernel
import PrefixIntegral.Tree.Basic

/-!
The value of a tree at a point, and its values at many points at once. Operands are evaluated
from left to right and before their operator, and the first domain check that fails in this
order is the outcome.
-/

namespace PrefixIntegral

/-- Why a tree has no value. The last cause never arises for a tree, whose operators have the
operands they take. -/
inductive EvaluationFault where
  | divisionByZero (node : Nat)
  | negativeSquareRoot (node : Nat)
  | negativeLogarithm (node : Nat)
  | malformed (node : Nat)
  deriving DecidableEq, Repr

namespace EvaluationFault

def name : EvaluationFault → String
  | divisionByZero _ => "DivisionByZeroError"
  | negativeSquareRoot _ => "NegativeSquareRootError"
  | negativeLogarithm _ => "NegativeLogarithmError"
  | malformed _ => "EvaluationError"

def message : EvaluationFault → String
  | divisionByZero node => s!"Division by zero (node {node})"
  | negativeSquareRoot node => s!"Square root of a negative value (node {node})"
  | negativeLogarithm node => s!"Logarithm of a negative value (node {node})"
  | malformed node => s!"Evaluation failed (node {node})"

end EvaluationFault

namespace Carrier

variable {α β : Type} [Scalar α]

/-- Takes a kernel's result, which is there for the kinds that the kernel is asked for. -/
def settle (node : Nat) : Except KernelFault β → Except EvaluationFault β
  | .ok value => .ok value
  | .error _ => .error (.malformed node)

def applyAt (c : Carrier α β) (node : Nat) (op : Operator) (operands : List β) :
    Except EvaluationFault β :=
  match op, operands with
  | .mul, _ | .add, _ => settle node (c.variadic (.operator op) operands)
  | .div, [a, b] =>
    if c.divisorIsZero b then .error (.divisionByZero node)
    else settle node (c.binary (.operator op) a b)
  | .sub, [a, b] | .pow, [a, b] => settle node (c.binary (.operator op) a b)
  | .sqrt, [a] =>
    if c.isNegative a then .error (.negativeSquareRoot node)
    else settle node (c.unary (.operator op) a)
  | .log, [a] =>
    if c.isNegative a then .error (.negativeLogarithm node)
    else settle node (c.unary (.operator op) a)
  | _, [a] => settle node (c.unary (.operator op) a)
  | _, _ => .error (.malformed node)

def valueAt (c : Carrier α β) (x : β) (node : Nat) (entry : Node α)
    (operands : List (Except EvaluationFault β)) : Except EvaluationFault β :=
  match entry.kind with
  | .argument => .ok x
  | .constant => .ok (c.single entry.value)
  | .operator op => do
    let values ← operands.mapM id
    c.applyAt node op values
  | .unknown _ => .error (.malformed node)

end Carrier

namespace Tree

variable {α : Type} [Scalar α]

def evaluateOn {β : Type} (t : Tree α) (c : Carrier α β) (x : β) : Except EvaluationFault β :=
  t.fold (c.valueAt x)

def evaluate (t : Tree α) (x : α) : Except EvaluationFault α := t.evaluateOn Carrier.point x

/-- The values of the tree at the points of a grid, node by node. Which point failed is not
told. -/
def evaluateMany (t : Tree α) (points : Grid α) : Except EvaluationFault (Grid α) :=
  (t.evaluateOn Carrier.lanes points.lanes).map points.fill

end Tree

end PrefixIntegral
