import PrefixIntegral.Tree.Node

/-!
Which arenas are trees. An arena is a tree when every node suits its kind, every operand comes
later than its operator, every node but the root is an operand exactly once, all nodes are
reachable from the root, and they stand in pre-order. The checks are made in this order, and the
first that fails is reported.
-/

namespace PrefixIntegral

inductive StructureFault where
  | noNodes
  | rootOutOfRange (root : Int)
  | argumentWithOperands (node : Nat)
  | constantWithOperands (node : Nat)
  | constantNaN (node : Nat)
  | operandCount (node : Nat) (op : Operator) (actual : Nat)
  | unknownKind (node : Nat) (number : Int)
  | missingOperand (node : Nat) (operand : Int)
  | earlierOperand (node : Nat) (operand : Int)
  | rootIsOperand (root : Nat)
  | references (node : Nat) (count : Nat)
  | unreachable (count : Nat)
  | outOfOrder (node : Int) (expected : Nat)
  deriving DecidableEq, Repr

namespace StructureFault

def message : StructureFault → String
  | noNodes => "Expression tree has no nodes"
  | rootOutOfRange root => s!"Root index {root} out of range"
  | argumentWithOperands node => s!"Variable node {node} has operands"
  | constantWithOperands node => s!"Constant node {node} has operands"
  | constantNaN node => s!"Constant node {node} is NaN"
  | operandCount node op actual =>
    s!"Node {node} ({op.name}) expects {op.arity.describe} operands, got {actual}"
  | unknownKind node number => s!"Node {node} has unknown kind {number}"
  | missingOperand node operand => s!"Node {node} references missing node {operand}"
  | earlierOperand node operand => s!"Node {node} references earlier node {operand}"
  | rootIsOperand root => s!"Root node {root} is referenced as an operand"
  | references node count => s!"Node {node} is referenced {count} times"
  | unreachable count => s!"{count} nodes unreachable from root"
  | outOfOrder node expected => s!"Node {node} is out of pre-order (expected {expected})"

end StructureFault

def checkAll {β ε : Type} (check : β → Except ε Unit) : List β → Except ε Unit
  | [] => .ok ()
  | item :: rest => do
    check item
    checkAll check rest

abbrev Arena (α : Type) := Array (Node α)

namespace Arena

variable {α : Type}

def childrenAt (nodes : Arena α) (place : Int) : List Int :=
  if place < 0 then [] else (nodes[place.toNat]?.map Node.children).getD []

def checkNode [Scalar α] (place : Nat) (node : Node α) : Except StructureFault Unit :=
  match node.kind with
  | .argument => if node.children.isEmpty then .ok () else .error (.argumentWithOperands place)
  | .constant =>
    if !node.children.isEmpty then .error (.constantWithOperands place)
    else if Scalar.isNaN node.value then .error (.constantNaN place)
    else .ok ()
  | .operator op =>
    if op.arity.accepts node.children.length then .ok ()
    else .error (.operandCount place op node.children.length)
  | .unknown number => .error (.unknownKind place number)

def checkChild (size place : Nat) (child : Int) : Except StructureFault Unit :=
  if child < 0 ∨ (size : Int) ≤ child then .error (.missingOperand place child)
  else if child ≤ place then .error (.earlierOperand place child)
  else .ok ()

def checkNodes [Scalar α] (size : Nat) : Nat → List (Node α) → Except StructureFault Unit
  | _, [] => .ok ()
  | place, node :: rest => do
    checkNode place node
    checkAll (checkChild size place) node.children
    checkNodes size (place + 1) rest

def references (nodes : Arena α) (place : Nat) : Nat :=
  (nodes.toList.flatMap Node.children).count (place : Int)

/-- Checks how often a place is an operand: never for the root, once for any other. -/
def checkReferences (nodes : Arena α) (root place : Nat) : Except StructureFault Unit :=
  let count := nodes.references place
  if place = root then
    if count = 0 then .ok () else .error (.rootIsOperand place)
  else if count = 1 then .ok ()
  else .error (.references place count)

/-- Marks the operands of every marked place, in one pass. Operands come later than their
operators, so by the time a place is passed it is marked if anything leads to it. -/
def reached (nodes : Arena α) (root : Nat) : Array Bool :=
  (List.range nodes.size).foldl
    (fun seen place =>
      if seen.getD place false then
        (nodes.childrenAt place).foldl (fun seen child => seen.setIfInBounds child.toNat true) seen
      else seen)
    ((Array.replicate nodes.size false).setIfInBounds root true)

def reachable (nodes : Arena α) (root : Nat) : Nat :=
  ((nodes.reached root).toList.filter id).length

/-- Walks the arena depth first and compares each place met with the count of those before. The
walk cannot outlast the arena: a place that agrees with the count lies further on each time. -/
def checkOrder (nodes : Arena α) (position : Nat) : List Int → Except StructureFault Unit
  | [] => .ok ()
  | place :: pending =>
    if place ≠ position then .error (.outOfOrder place position)
    else if position < nodes.size then
      checkOrder nodes (position + 1) (nodes.childrenAt place ++ pending)
    else .error (.outOfOrder place position)
  termination_by nodes.size - position

def checkReachable (nodes : Arena α) (root : Nat) : Except StructureFault Unit :=
  let count := nodes.reachable root
  if count = nodes.size then .ok () else .error (.unreachable (nodes.size - count))

def validate [Scalar α] (nodes : Arena α) (root : Int) : Except StructureFault Unit :=
  if nodes.size = 0 then .error .noNodes
  else if root < 0 ∨ (nodes.size : Int) ≤ root then .error (.rootOutOfRange root)
  else do
    checkNodes nodes.size 0 nodes.toList
    checkAll (nodes.checkReferences root.toNat) (List.range nodes.size)
    nodes.checkReachable root.toNat
    nodes.checkOrder 0 [root]

def isTree [Scalar α] (nodes : Arena α) (root : Int) : Bool :=
  match nodes.validate root with
  | .ok _ => true
  | .error _ => false

end Arena

end PrefixIntegral
