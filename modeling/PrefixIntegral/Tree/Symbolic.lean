import PrefixIntegral.Tree.Basic

namespace PrefixIntegral

inductive SymbolicFunction where
  | sin | cos | tan | cot | exp | log
  deriving DecidableEq, Repr

namespace SymbolicFunction

def name : SymbolicFunction → String
  | sin => "sin"
  | cos => "cos"
  | tan => "tan"
  | cot => "cot"
  | exp => "exp"
  | log => "log"

end SymbolicFunction

inductive Symbolic (α : Type) where
  | symbol (name : Text)
  | integer (value : Int)
  | half
  | number (value : α)
  | pi
  | infinity
  | negativeInfinity
  | nan
  | sum (terms : List (Symbolic α))
  | product (factors : List (Symbolic α))
  | power (base exponent : Symbolic α)
  | apply (function : SymbolicFunction) (argument : Symbolic α)

namespace Symbolic

/-- A constant: the circle constant by name, a whole number exactly, an infinity, or the number
itself. -/
def ofConstant (x : Float) : Symbolic Float :=
  if x == Literal.pi then pi
  else match Decimal.whole? x with
  | some value => integer value
  | none => match Decimal.parts x with
    | .nan => nan
    | .infinite negative => if negative then negativeInfinity else infinity
    | .finite .. => number x

/-- An operator over symbolic operands. A tree has as many operands as the operator takes; any
other count gives an expression that is no number. -/
def ofOperator {α : Type} (op : Operator) (operands : List (Symbolic α)) : Symbolic α :=
  match op, operands with
  | .mul, factors => product factors
  | .add, terms => sum terms
  | .div, [a, b] => product [a, power b (integer (-1))]
  | .sub, [a, b] => sum [a, product [integer (-1), b]]
  | .pow, [a, b] => power a b
  | .sqr, [a] => power a (integer 2)
  | .sqrt, [a] => power a half
  | .sin, [a] => apply .sin a
  | .cos, [a] => apply .cos a
  | .tan, [a] => apply .tan a
  | .cot, [a] => apply .cot a
  | .exp, [a] => apply .exp a
  | .log, [a] => apply .log a
  | _, _ => nan

def ofNode (name : Text) (node : Node Float) (operands : List (Symbolic Float)) :
    Symbolic Float :=
  match node.kind with
  | .argument => symbol name
  | .constant => ofConstant node.value
  | .operator op => ofOperator op operands
  | .unknown _ => nan

end Symbolic

def Tree.toSymbolic (t : Tree Float) : Symbolic Float :=
  t.fold fun _ node operands => Symbolic.ofNode t.symbol node operands

end PrefixIntegral
