import PrefixIntegral.Tree.Symbolic

/-!
Symbolic expressions in customary notation: operators between their operands, and quotients for
powers with exponent minus one. An expression is written as it stands and is not simplified.
-/

namespace PrefixIntegral

namespace Symbolic

/-- How tightly the outermost operator of an expression binds, from a sum to a power; what needs
no parentheses anywhere binds tightest. -/
inductive Binding where
  | sum | product | power | atom
  deriving DecidableEq, Repr

def Binding.rank : Binding → Nat
  | sum => 0
  | product => 1
  | power => 2
  | atom => 3

structure Infix where
  binding : Binding
  text : Text

namespace Infix

def within (needed : Binding) (i : Infix) : Text :=
  if needed.rank ≤ i.binding.rank then i.text else '(' :: i.text ++ [')']

def joined (operator : Text) : List Text → Text
  | [] => []
  | [operand] => operand
  | operand :: rest => operand ++ operator ++ joined operator rest

end Infix

def numeralInfix (text : Text) : Infix :=
  ⟨if text.head? = some '-' then .product else .atom, text⟩

mutual

def toInfix : Symbolic Float → Infix
  | symbol name => ⟨.atom, name⟩
  | integer value => numeralInfix (toString value).toList
  | half => ⟨.product, ['1', '/', '2']⟩
  | number value => numeralInfix (Decimal.exact value)
  | pi => ⟨.atom, ['p', 'i']⟩
  | infinity => ⟨.atom, ['o', 'o']⟩
  | negativeInfinity => ⟨.product, ['-', 'o', 'o']⟩
  | nan => ⟨.atom, ['n', 'a', 'n']⟩
  | sum terms => ⟨.sum, Infix.joined [' ', '+', ' '] (operandTexts .product terms)⟩
  | product factors => ⟨.product, factorTexts true factors⟩
  | power base (integer (-1)) => ⟨.product, ['1', '/'] ++ base.toInfix.within .power⟩
  | power base half => ⟨.atom, "sqrt(".toList ++ base.toInfix.text ++ [')']⟩
  | power base exponent =>
    ⟨.power, base.toInfix.within .atom ++ ['*', '*'] ++ exponent.toInfix.within .atom⟩
  | apply function argument =>
    ⟨.atom, function.name.toList ++ '(' :: argument.toInfix.text ++ [')']⟩

def operandTexts (needed : Binding) : List (Symbolic Float) → List Text
  | [] => []
  | operand :: rest => operand.toInfix.within needed :: operandTexts needed rest

/-- The factors of a product; a power with exponent minus one divides what stands before it. -/
def factorTexts (first : Bool) : List (Symbolic Float) → Text
  | [] => []
  | power base (integer (-1)) :: rest =>
    (if first then ['1', '/'] else ['/']) ++ base.toInfix.within .power ++ factorTexts false rest
  | factor :: rest =>
    (if first then [] else ['*']) ++ factor.toInfix.within .product ++ factorTexts false rest

end

def write (s : Symbolic Float) : Text := s.toInfix.text

end Symbolic

end PrefixIntegral
