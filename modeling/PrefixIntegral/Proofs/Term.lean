import PrefixIntegral.Tree.Basic

/-!
Terms, and how an arena lays them out. A term knows nothing of places; its layout in pre-order puts
every operator before its operands, and gives it the places at which they start.
-/

namespace PrefixIntegral

/-- A leaf, or an operator over its operands from left to right. -/
inductive Term (β : Type) where
  | leaf (content : β)
  | apply (op : Operator) (operands : List (Term β))

namespace Term

variable {α β : Type}

@[elab_as_elim, induction_eliminator]
theorem induction {motive : Term β → Prop} (leaf : ∀ content, motive (.leaf content))
    (apply : ∀ op operands, (∀ t ∈ operands, motive t) → motive (.apply op operands)) :
    ∀ t, motive t
  | .leaf content => leaf content
  | .apply op operands => apply op operands fun t _ => induction leaf apply t

mutual

def size : Term β → Nat
  | .leaf _ => 1
  | .apply _ operands => sizeOfAll operands + 1

def sizeOfAll : List (Term β) → Nat
  | [] => 0
  | t :: rest => t.size + sizeOfAll rest

end

def starts (base : Nat) : List (Term β) → List Int
  | [] => []
  | t :: rest => (base : Int) :: starts (base + t.size) rest

/-- Every operator of the term takes as many operands as it has there, and every leaf passes. -/
inductive Fits (passes : β → Prop) : Term β → Prop
  | leaf {content : β} : passes content → Fits passes (.leaf content)
  | apply {op : Operator} {operands : List (Term β)} : op.arity.accepts operands.length →
      (∀ t ∈ operands, Fits passes t) → Fits passes (.apply op operands)

theorem size_pos (t : Term β) : 0 < t.size := by
  cases t <;> simp [size]

@[simp] theorem length_starts (base : Nat) (operands : List (Term β)) :
    (starts base operands).length = operands.length := by
  induction operands generalizing base with
  | nil => rfl
  | cons t rest ih => simp [starts, ih]

theorem sizeOfAll_append (first second : List (Term β)) :
    sizeOfAll (first ++ second) = sizeOfAll first + sizeOfAll second := by
  induction first with
  | nil => simp [sizeOfAll]
  | cons t rest ih => rw [List.cons_append, sizeOfAll, sizeOfAll, ih, Nat.add_assoc]

theorem exists_of_append_eq_starts {base : Nat} {operands : List (Term β)} {first second : List Int}
    (h : first ++ second = starts base operands) :
    ∃ before after, operands = before ++ after ∧ first = starts base before ∧
      second = starts (base + sizeOfAll before) after := by
  induction first generalizing base operands with
  | nil => exact ⟨[], operands, rfl, rfl, h⟩
  | cons place rest ih =>
      cases operands with
      | nil => simp [starts] at h
      | cons t others =>
          rw [starts, List.cons_append, List.cons.injEq] at h
          obtain ⟨before, after, rfl, rfl, rfl⟩ := ih h.2
          exact ⟨t :: before, after, rfl, by rw [starts, h.1], by rw [sizeOfAll, Nat.add_assoc]⟩

theorem mem_starts {base : Nat} {operands : List (Term β)} {place : Int}
    (h : place ∈ starts base operands) :
    (base : Int) ≤ place ∧ place < (base + sizeOfAll operands : Nat) := by
  induction operands generalizing base with
  | nil => simp [starts] at h
  | cons t rest ih =>
      have hpos := t.size_pos
      simp only [sizeOfAll]
      rcases List.mem_cons.1 h with rfl | h
      · omega
      · have := ih h
        omega

section Layout

variable [Scalar α]

mutual

def nodes (leafNode : β → Node α) (base : Nat) : Term β → List (Node α)
  | .leaf content => [leafNode content]
  | .apply op operands =>
    .operator op (starts (base + 1) operands) :: nodesOfAll leafNode (base + 1) operands

def nodesOfAll (leafNode : β → Node α) (base : Nat) : List (Term β) → List (Node α)
  | [] => []
  | t :: rest => nodes leafNode base t ++ nodesOfAll leafNode (base + t.size) rest

end

theorem length_nodesOfAll_of {leafNode : β → Node α} {operands : List (Term β)}
    (h : ∀ t ∈ operands, ∀ base, (nodes leafNode base t).length = t.size) (base : Nat) :
    (nodesOfAll leafNode base operands).length = sizeOfAll operands := by
  induction operands generalizing base with
  | nil => rfl
  | cons t rest ih =>
      rw [nodesOfAll, List.length_append, h t (by simp), ih fun u hu => h u (by simp [hu]),
        sizeOfAll]

@[simp] theorem length_nodes (leafNode : β → Node α) (base : Nat) (t : Term β) :
    (nodes leafNode base t).length = t.size := by
  induction t generalizing base with
  | leaf content => rfl
  | apply op operands ih =>
      rw [nodes, List.length_cons, length_nodesOfAll_of ih, size]

@[simp] theorem length_nodesOfAll (leafNode : β → Node α) (base : Nat) (operands : List (Term β)) :
    (nodesOfAll leafNode base operands).length = sizeOfAll operands :=
  length_nodesOfAll_of (fun t _ base => length_nodes leafNode base t) base

theorem nodesOfAll_append (leafNode : β → Node α) (base : Nat) (first second : List (Term β)) :
    nodesOfAll leafNode base (first ++ second) =
      nodesOfAll leafNode base first ++ nodesOfAll leafNode (base + sizeOfAll first) second := by
  induction first generalizing base with
  | nil => simp [nodesOfAll, sizeOfAll]
  | cons t rest ih =>
      simp only [List.cons_append, nodesOfAll, sizeOfAll, ih, List.append_assoc, Nat.add_assoc]

end Layout

end Term

inductive Leaf (α : Type) where
  | argument
  | constant (value : α)
  deriving DecidableEq, Repr

namespace Leaf

variable {α : Type} [Scalar α]

def node : Leaf α → Node α
  | argument => .argument
  | constant value => .constant value

def IsNumber : Leaf α → Prop
  | argument => True
  | constant value => Scalar.isNaN value = false

end Leaf

end PrefixIntegral
