import PrefixIntegral.Formula.Operator

namespace PrefixIntegral

/-- What a node stands for; the argument is the variable of the formula. -/
inductive Kind where
  | argument
  | constant
  | operator (op : Operator)
  | unknown (number : Int)
  deriving DecidableEq, Repr

namespace Kind

def all : List Kind := argument :: constant :: Operator.all.map operator

def number : Kind → Int
  | argument => 0
  | constant => 1
  | operator op => op.number
  | unknown number => number

def name : Kind → String
  | argument => "VARIABLE"
  | constant => "CONSTANT"
  | operator op => op.name
  | unknown number => toString number

def ofName? (name : String) : Option Kind := all.find? (·.name = name)

def isLeaf : Kind → Bool
  | argument | constant => true
  | _ => false

end Kind

end PrefixIntegral
