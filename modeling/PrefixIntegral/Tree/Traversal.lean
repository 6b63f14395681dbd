import PrefixIntegral.Tree.Basic

namespace PrefixIntegral

inductive VisitOrder where
  | depthFirst
  | breadthFirst
  deriving DecidableEq, Repr

inductive VisitFault where
  | unknownOrder (name : Text)
  | rootOutOfRange
  deriving DecidableEq, Repr

namespace VisitFault

def name : VisitFault → String
  | unknownOrder _ => "ValueError"
  | rootOutOfRange => "IndexError"

def message : VisitFault → String
  | unknownOrder name => "Invalid traversal_order: " ++ String.ofList name
  | rootOutOfRange => "tuple index out of range"

end VisitFault

namespace VisitOrder

def ofName (name : Text) : Except VisitFault VisitOrder :=
  if name = "depth_first".toList then .ok depthFirst
  else if name = "breadth_first".toList then .ok breadthFirst
  else .error (.unknownOrder name)

/-- Where the operands of a visited node queue up: before the nodes that wait, or behind them. -/
def enqueue : VisitOrder → List Int → List Int → List Int
  | depthFirst, children, pending => children ++ pending
  | breadthFirst, children, pending => pending ++ children

end VisitOrder

namespace Arena

variable {α : Type}

def visitFrom (nodes : Arena α) (order : VisitOrder) : Nat → List Int → List Int
  | _, [] => []
  | 0, _ :: _ => []
  | steps + 1, place :: pending =>
    place :: nodes.visitFrom order steps (order.enqueue (nodes.childrenAt place) pending)

end Arena

namespace Tree

variable {α : Type} [Scalar α]

/-- The places of the nodes below a root, in the order in which they are visited. No node of a
tree is met twice, so there are steps enough for all of them. A negative root counts from the end
of the arena and is listed as it was given. -/
def visit (t : Tree α) (order : VisitOrder) (root : Int) : Except VisitFault (List Int) :=
  if root < -(t.size : Int) ∨ (t.size : Int) ≤ root then .error .rootOutOfRange
  else if root < 0 then .ok (root :: (t.nodes.visitFrom order t.size [root + t.size]).drop 1)
  else .ok (t.nodes.visitFrom order t.size [root])

def depthOver (depths : List Nat) : Nat := 1 + depths.foldl max 0

def depthAt (t : Tree α) (i : Nat) (hi : i < t.size) : Nat :=
  t.foldFrom (fun _ _ depths => depthOver depths) i hi

def depth (t : Tree α) : Nat := t.depthAt 0 t.size_pos

/-- The place after the last node of the subtree at a place, found along the last operands. -/
def subtreeEnd (t : Tree α) (i : Nat) (hi : i < t.size) : Nat :=
  match hc : (t.node i hi).children.getLast? with
  | none => i + 1
  | some child =>
    have hm := t.lt_child hi (List.mem_of_getLast? hc)
    t.subtreeEnd child.toNat hm.2
  termination_by t.size - i

def operatorCounts (t : Tree α) : List (Operator × Nat) :=
  Operator.all.filterMap fun op =>
    let count := t.nodes.toList.countP (·.kind = .operator op)
    if count = 0 then none else some (op, count)

def constants (t : Tree α) : List α :=
  (t.nodes.toList.filter (·.kind = .constant)).map Node.value

theorem mem_constants {t : Tree α} {node : Node α} (hmem : node ∈ t.nodes.toList)
    (hkind : node.kind = .constant) : node.value ∈ t.constants :=
  List.mem_map_of_mem (List.mem_filter.2 ⟨hmem, decide_eq_true hkind⟩)

def usesVariable (t : Tree α) : Bool := t.nodes.toList.any (·.kind = .argument)

end Tree

end PrefixIntegral
