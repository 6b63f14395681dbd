import PrefixIntegral.Tree.Structure

/-!
Expression trees. A tree is an arena that passed the checks of its structure, together with the
symbol of its variable and, if it was read from a formula, that formula. The root is node 0.
Every computation over a tree follows the places of the operands, which the checks have shown to
grow and to stay inside the arena, so it ends without a bound of its own.
-/

namespace PrefixIntegral

namespace Arena

variable {α : Type}

theorem checkChild_ok {size place : Nat} {child : Int}
    (h : checkChild size place child = .ok ()) : (place : Int) < child ∧ child < size := by
  unfold checkChild at h
  split at h
  · cases h
  · split at h
    · cases h
    · omega

theorem checkAll_ok {β ε : Type} {check : β → Except ε Unit} {items : List β}
    (h : checkAll check items = .ok ()) : ∀ item ∈ items, check item = .ok () := by
  induction items with
  | nil => simp
  | cons first rest ih =>
    rw [checkAll] at h
    cases hf : check first with
    | error e => rw [hf] at h; cases h
    | ok u =>
      rw [hf] at h
      intro item hm
      rcases List.mem_cons.1 hm with rfl | hm
      · exact hf
      · exact ih h item hm

theorem checkNodes_ok [Scalar α] {size : Nat} {nodes : List (Node α)} {start : Nat}
    (h : checkNodes size start nodes = .ok ()) {i : Nat} (hi : i < nodes.length) :
    ∀ child ∈ nodes[i].children, ((start + i : Nat) : Int) < child ∧ child < size := by
  induction nodes generalizing start i with
  | nil => simp at hi
  | cons node rest ih =>
    rw [checkNodes] at h
    cases hn : checkNode start node with
    | error e => rw [hn] at h; cases h
    | ok u =>
      rw [hn] at h
      cases hc : checkAll (checkChild size start) node.children with
      | error e => rw [hc] at h; cases h
      | ok v =>
        rw [hc] at h
        cases i with
        | zero => exact fun child hm => checkChild_ok (checkAll_ok hc child hm)
        | succ i =>
          intro child hm
          have := ih h (Nat.lt_of_succ_lt_succ hi) child hm
          omega

theorem validate_size_pos [Scalar α] {nodes : Arena α} {root : Int}
    (h : nodes.validate root = .ok ()) : 0 < nodes.size := by
  unfold validate at h
  split at h
  · cases h
  · omega

theorem validate_checkNodes [Scalar α] {nodes : Arena α} {root : Int}
    (h : nodes.validate root = .ok ()) : checkNodes nodes.size 0 nodes.toList = .ok () := by
  unfold validate at h
  split at h
  · cases h
  · split at h
    · cases h
    · cases hn : checkNodes nodes.size 0 nodes.toList with
      | ok u => rfl
      | error e => rw [hn] at h; cases h

theorem validate_children [Scalar α] {nodes : Arena α} {root : Int}
    (h : nodes.validate root = .ok ()) {i : Nat} (hi : i < nodes.size) :
    ∀ child ∈ nodes[i].children, (i : Int) < child ∧ child < nodes.size := by
  intro child hm
  have := checkNodes_ok (validate_checkNodes h) (i := i) (by simpa using hi) child
    (by simpa using hm)
  simpa using this

end Arena

/-- A checked arena with the symbol of its variable and its formula. -/
structure Tree (α : Type) [Scalar α] where
  nodes : Arena α
  symbol : Text
  source : Option Text
  valid : nodes.validate 0 = .ok ()

namespace Tree

variable {α : Type} [Scalar α]

def ofNodes (nodes : Arena α) (symbol : Text) (source : Option Text) :
    Except StructureFault (Tree α) :=
  match h : nodes.validate 0 with
  | .ok () => .ok ⟨nodes, symbol, source, h⟩
  | .error fault => .error fault

def size (t : Tree α) : Nat := t.nodes.size

theorem size_pos (t : Tree α) : 0 < t.size := Arena.validate_size_pos t.valid

def node (t : Tree α) (i : Nat) (hi : i < t.size) : Node α :=
  have : i < t.nodes.size := hi
  t.nodes[i]

theorem lt_child (t : Tree α) {i : Nat} (hi : i < t.size) {child : Int}
    (hm : child ∈ (t.node i hi).children) : i < child.toNat ∧ child.toNat < t.size := by
  have := Arena.validate_children t.valid hi child hm
  unfold size
  omega

/-- Combines the nodes of a subtree from the leaves up: each node with its place and with what
its operands gave, from left to right. -/
def foldFrom {β : Type} (t : Tree α) (combine : Nat → Node α → List β → β) (i : Nat)
    (hi : i < t.size) : β :=
  combine i (t.node i hi) <|
    (t.node i hi).children.attach.map fun child =>
      t.foldFrom combine child.val.toNat (t.lt_child hi child.property).2
  termination_by t.size - i
  decreasing_by
    have := t.lt_child hi child.property
    omega

def operands {β : Type} (t : Tree α) (combine : Nat → Node α → List β → β) (i : Nat)
    (hi : i < t.size) : List β :=
  (t.node i hi).children.attach.map fun child =>
    t.foldFrom combine child.val.toNat (t.lt_child hi child.property).2

theorem foldFrom_eq {β : Type} (t : Tree α) (combine : Nat → Node α → List β → β) {i : Nat}
    (hi : i < t.size) :
    t.foldFrom combine i hi = combine i (t.node i hi) (t.operands combine i hi) := by
  rw [foldFrom, operands]

def fold {β : Type} (t : Tree α) (combine : Nat → Node α → List β → β) : β :=
  t.foldFrom combine 0 t.size_pos

def same (a b : Tree α) : Bool :=
  a.symbol == b.symbol && a.nodes.size == b.nodes.size &&
    (a.nodes.toList.zip b.nodes.toList).all fun (m, n) => m.same n

end Tree

end PrefixIntegral
