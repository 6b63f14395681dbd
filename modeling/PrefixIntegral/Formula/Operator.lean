import PrefixIntegral.Text.Blank

namespace PrefixIntegral

/-- The operators, in the order in which they are numbered. -/
inductive Operator where
  | mul | div | add | sub | sqr | sqrt | pow | sin | cos | tan | cot | exp | log
  deriving DecidableEq, Repr

/-- The operand counts that an operator takes: a least one, and a greatest one if there is. -/
structure Arity where
  least : Nat
  most : Option Nat
  deriving DecidableEq, Repr

namespace Arity

def accepts (a : Arity) (count : Nat) : Bool :=
  a.least ≤ count && match a.most with
    | none => true
    | some most => count ≤ most

def describe (a : Arity) : String :=
  match a.most with
  | none => "at least " ++ toString a.least
  | some _ => "exactly " ++ toString a.least

end Arity

namespace Operator

def all : List Operator :=
  [mul, div, add, sub, sqr, sqrt, pow, sin, cos, tan, cot, exp, log]

def token : Operator → Text
  | mul => ['*']
  | div => ['/']
  | add => ['+']
  | sub => ['-']
  | sqr => ['s', 'q', 'r']
  | sqrt => ['s', 'q', 'r', 't']
  | pow => ['p', 'o', 'w']
  | sin => ['s', 'i', 'n']
  | cos => ['c', 'o', 's']
  | tan => ['t', 'a', 'n']
  | cot => ['c', 'o', 't']
  | exp => ['e', 'x', 'p']
  | log => ['l', 'o', 'g']

def ofToken? (word : Text) : Option Operator := all.find? (·.token = word)

/-- Sums and products take two operands or more; the rest take exactly two or one. -/
def arity : Operator → Arity
  | mul | add => ⟨2, none⟩
  | div | sub | pow => ⟨2, some 2⟩
  | _ => ⟨1, some 1⟩

def name : Operator → String
  | mul => "MUL"
  | div => "DIV"
  | add => "ADD"
  | sub => "SUB"
  | sqr => "SQR"
  | sqrt => "SQRT"
  | pow => "POW"
  | sin => "SIN"
  | cos => "COS"
  | tan => "TAN"
  | cot => "COT"
  | exp => "EXP"
  | log => "LOG"

def number : Operator → Nat
  | mul => 2
  | div => 3
  | add => 4
  | sub => 5
  | sqr => 6
  | sqrt => 7
  | pow => 8
  | sin => 9
  | cos => 10
  | tan => 11
  | cot => 12
  | exp => 13
  | log => 14

theorem ofToken?_token (op : Operator) : ofToken? op.token = some op := by
  cases op <;> decide

end Operator

end PrefixIntegral
