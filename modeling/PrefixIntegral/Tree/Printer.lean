import PrefixIntegral.Text.Quoted
import PrefixIntegral.Tree.Basic

namespace PrefixIntegral.Tree

def spaced : List Text → Text
  | [] => []
  | [word] => word
  | word :: rest => word ++ ' ' :: spaced rest

def writeNode (symbol : Text) (node : Node Float) (operands : List Text) : Text :=
  if node.kind.isLeaf then node.token symbol
  else '(' :: node.token symbol ++ ' ' :: spaced operands ++ [')']

def write (t : Tree Float) : Text := t.fold fun _ node operands => writeNode t.symbol node operands

def formula (t : Tree Float) : Text := t.source.getD t.write

def describe (t : Tree Float) : String :=
  "ExpressionTree(" ++ String.ofList (Text.quoted t.write) ++
    ", variable=" ++ String.ofList (Text.quoted t.symbol) ++ ")"

end PrefixIntegral.Tree
