import PrefixIntegral.Formula.Literal
import PrefixIntegral.Scalar
import PrefixIntegral.Tree.Kind

namespace PrefixIntegral

/-- An entry of an arena. Places are whole numbers, since a hand-made node may refer anywhere. -/
structure Node (α : Type) where
  kind : Kind
  value : α
  children : List Int
  deriving DecidableEq, Repr

namespace Node

variable {α : Type} [Scalar α]

def argument : Node α := ⟨.argument, Scalar.ofInt 0, []⟩

def constant (value : α) : Node α := ⟨.constant, value, []⟩

def operator (op : Operator) (children : List Int) : Node α :=
  ⟨.operator op, Scalar.ofInt 0, children⟩

/-- Nodes are compared by kind, value and operands; values compare as numbers, so both zeros
are the same and what is no number differs from itself. -/
def same (a b : Node α) : Bool :=
  a.kind == b.kind && Scalar.same a.value b.value && a.children == b.children

/-- The word that stands for the node in a formula over the given variable. The circle constant
has a word of its own, unless the variable takes it. -/
def token (symbol : Text) (node : Node Float) : Text :=
  match node.kind with
  | .argument => symbol
  | .constant =>
    if node.value == Literal.pi && symbol != Literal.piToken then Literal.piToken
    else Literal.write node.value
  | .operator op => op.token
  | .unknown _ => []

end Node

end PrefixIntegral
