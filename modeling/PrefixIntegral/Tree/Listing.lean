import PrefixIntegral.Text.Column
import PrefixIntegral.Tree.Basic

namespace PrefixIntegral.Tree

def operandsText (node : Node Float) : String :=
  if node.children.isEmpty then "" else " -> " ++ Text.bracketed (node.children.map toString)

/-- A line for every node: its place on the right of a column, a gap, its kind, its token and its
operands. -/
def listing (t : Tree Float) (width : Nat) (gap : String) : List String :=
  t.nodes.toList.zipIdx.map fun (node, place) =>
    Column.right width (toString place) ++ gap ++ Column.left 8 node.kind.name ++ " " ++
      String.ofList (node.token t.symbol) ++ operandsText node

end PrefixIntegral.Tree
