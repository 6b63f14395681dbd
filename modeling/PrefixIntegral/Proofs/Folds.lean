import PrefixIntegral.Proofs.Preorder

namespace PrefixIntegral

namespace Term

variable {α β γ : Type}

mutual

def fold (onLeaf : β → γ) (onApply : Operator → List γ → γ) : Term β → γ
  | .leaf content => onLeaf content
  | .apply op operands => onApply op (foldAll onLeaf onApply operands)

def foldAll (onLeaf : β → γ) (onApply : Operator → List γ → γ) : List (Term β) → List γ
  | [] => []
  | t :: rest => fold onLeaf onApply t :: foldAll onLeaf onApply rest

end

theorem foldAll_eq_map (onLeaf : β → γ) (onApply : Operator → List γ → γ)
    (operands : List (Term β)) :
    foldAll onLeaf onApply operands = operands.map (fold onLeaf onApply) := by
  induction operands with
  | nil => rfl
  | cons t rest ih => rw [foldAll, ih, List.map_cons]

theorem fold_apply (onLeaf : β → γ) (onApply : Operator → List γ → γ) (op : Operator)
    (operands : List (Term β)) :
    fold onLeaf onApply (.apply op operands) =
      onApply op (operands.map (fold onLeaf onApply)) := by
  rw [fold, foldAll_eq_map]

mutual

/-- Combines a term from the leaves up, every leaf and operator with the place that it has in a
layout from a place on. -/
def foldFrom (onLeaf : Nat → β → γ) (onApply : Nat → Operator → List γ → γ) (base : Nat) :
    Term β → γ
  | .leaf content => onLeaf base content
  | .apply op operands => onApply base op (foldAllFrom onLeaf onApply (base + 1) operands)

def foldAllFrom (onLeaf : Nat → β → γ) (onApply : Nat → Operator → List γ → γ) (base : Nat) :
    List (Term β) → List γ
  | [] => []
  | t :: rest => foldFrom onLeaf onApply base t :: foldAllFrom onLeaf onApply (base + t.size) rest

end

theorem foldFrom_eq_fold (onLeaf : β → γ) (onApply : Operator → List γ → γ) (base : Nat)
    (t : Term β) :
    foldFrom (fun _ => onLeaf) (fun _ => onApply) base t = fold onLeaf onApply t := by
  induction t generalizing base with
  | leaf content => rfl
  | apply op operands ih =>
      rw [foldFrom, fold]
      congr 1
      generalize base + 1 = base
      induction operands generalizing base with
      | nil => rfl
      | cons t rest hrest =>
          rw [foldAllFrom, foldAll, ih t (by simp), hrest fun u hu => ih u (by simp [hu])]

def map (f : β → γ) : Term β → Term γ := fold (fun content => .leaf (f content)) .apply

theorem map_apply (f : β → γ) (op : Operator) (operands : List (Term β)) :
    map f (.apply op operands) = .apply op (operands.map (map f)) :=
  fold_apply _ _ op operands

theorem fold_map {δ : Type} (onLeaf : γ → δ) (onApply : Operator → List δ → δ) (f : β → γ)
    (t : Term β) : fold onLeaf onApply (map f t) = fold (onLeaf ∘ f) onApply t := by
  induction t with
  | leaf content => rfl
  | apply op operands ih =>
      rw [map_apply, fold_apply, fold_apply, List.map_map]
      exact congrArg _ (List.map_congr_left ih)

theorem Fits.mono {passes passes' : β → Prop} (h : ∀ content, passes content → passes' content)
    {t : Term β} (ht : t.Fits passes) : t.Fits passes' := by
  induction ht with
  | leaf hcontent => exact .leaf (h _ hcontent)
  | apply haccepts _ ih => exact .apply haccepts ih

theorem Fits.map {passes : β → Prop} {passes' : γ → Prop} {f : β → γ}
    (hf : ∀ content, passes content → passes' (f content)) {t : Term β} (ht : t.Fits passes) :
    (Term.map f t).Fits passes' := by
  induction ht with
  | leaf hcontent => exact .leaf (hf _ hcontent)
  | @apply op operands haccepts _ ih =>
      rw [map_apply]
      refine .apply (by rwa [List.length_map]) ?_
      intro u hu
      obtain ⟨t, ht, rfl⟩ := List.mem_map.1 hu
      exact ih t ht

@[simp] theorem size_map (f : β → γ) (t : Term β) : (map f t).size = t.size := by
  induction t with
  | leaf content => rfl
  | apply op operands ih =>
      rw [map_apply, size, size]
      congr 1
      induction operands with
      | nil => rfl
      | cons t rest hrest =>
          rw [List.map_cons, sizeOfAll, sizeOfAll, ih t (by simp),
            hrest fun u hu => ih u (by simp [hu])]

theorem starts_map (f : β → γ) (base : Nat) (operands : List (Term β)) :
    starts base (operands.map (map f)) = starts base operands := by
  induction operands generalizing base with
  | nil => rfl
  | cons t rest ih => rw [List.map_cons, starts, starts, size_map, ih]

section Layout

variable [Scalar α]

theorem map_nodes {leafNode : β → Node α} {leafNode' : γ → Node α} {f : β → γ}
    {change : Node α → Node α}
    (hleaf : ∀ content, change (leafNode content) = leafNode' (f content))
    (hop : ∀ op children, change (.operator op children) = .operator op children) (base : Nat)
    (t : Term β) : (nodes leafNode base t).map change = nodes leafNode' base (map f t) := by
  induction t generalizing base with
  | leaf content => exact congrArg (· :: []) (hleaf content)
  | apply op operands ih =>
      rw [map_apply, nodes, nodes, List.map_cons, hop, starts_map]
      congr 1
      generalize base + 1 = base
      induction operands generalizing base with
      | nil => rfl
      | cons t rest hrest =>
          rw [List.map_cons, nodesOfAll, nodesOfAll, List.map_append, ih t (by simp), size_map,
            hrest fun u hu => ih u (by simp [hu])]

end Layout

end Term

namespace Tree

open Term (nodesOfAll starts)

variable {α γ : Type} [Scalar α] {t : Tree α} {combine : Nat → Node α → List γ → γ}
  {onLeaf : Nat → Leaf α → γ} {onApply : Nat → Operator → List γ → γ}

def foldAt? (t : Tree α) (combine : Nat → Node α → List γ → γ) (i : Nat) : Option γ :=
  if hi : i < t.size then some (t.foldFrom combine i hi) else none

theorem map_some_foldFrom {i : Nat} (hi : i < t.size) :
    (((t.node i hi).children.attach.map fun child =>
      t.foldFrom combine child.val.toNat (t.lt_child hi child.property).2).map some) =
      (t.node i hi).children.map fun child => t.foldAt? combine child.toNat := by
  have hval := List.attach_map_val (l := (t.node i hi).children)
    (f := fun child => t.foldAt? combine child.toNat)
  rw [List.map_map, ← hval]
  refine List.map_congr_left ?_
  intro child _
  rw [Function.comp_apply, foldAt?, dif_pos (t.lt_child hi child.property).2]

theorem foldAt?_eq {i : Nat} (hi : i < t.size) {operands : List γ}
    (h : (t.node i hi).children.map (fun child => t.foldAt? combine child.toNat) =
      operands.map some) :
    t.foldAt? combine i = some (combine i (t.node i hi) operands) := by
  have hlist := (map_some_foldFrom hi).trans h
  rw [List.map_inj_right fun _ _ => Option.some.inj] at hlist
  rw [foldAt?, dif_pos hi, foldFrom, hlist]

def Begins (t : Tree α) (base : Nat) (term : Term (Leaf α)) : Prop :=
  Term.nodes Leaf.node base term <+: (t.nodes.toList.drop base).map Node.plain

theorem begins_zero {term : Term (Leaf α)}
    (hterm : t.nodes.toList.map Node.plain = Term.nodes Leaf.node 0 term) : t.Begins 0 term :=
  ⟨[], by rw [List.append_nil, List.drop_zero, hterm]⟩

theorem begins_of_cons {base : Nat} {term : Term (Leaf α)} {rest : List (Term (Leaf α))}
    (h : nodesOfAll Leaf.node base (term :: rest) <+: (t.nodes.toList.drop base).map Node.plain) :
    t.Begins base term ∧ nodesOfAll Leaf.node (base + term.size) rest <+:
      (t.nodes.toList.drop (base + term.size)).map Node.plain := by
  rw [nodesOfAll] at h
  constructor
  · exact (List.prefix_append _ _).trans h
  · obtain ⟨others, hothers⟩ := h
    refine ⟨others, ?_⟩
    rw [← List.drop_drop, List.map_drop, ← hothers, List.append_assoc,
      List.drop_append_of_le_length (by simp), List.drop_of_length_le (by simp), List.nil_append]

theorem foldAt?_starts {base : Nat} {operands : List (Term (Leaf α))}
    (h : ∀ term ∈ operands, ∀ {base}, t.Begins base term →
      t.foldAt? combine base = some (term.foldFrom onLeaf onApply base))
    (hbegins : nodesOfAll Leaf.node base operands <+: (t.nodes.toList.drop base).map Node.plain) :
    (starts base operands).map (fun child => t.foldAt? combine child.toNat) =
      (Term.foldAllFrom onLeaf onApply base operands).map some := by
  induction operands generalizing base with
  | nil => rfl
  | cons term rest ih =>
      obtain ⟨hfirst, hrest⟩ := begins_of_cons hbegins
      rw [starts, Term.foldAllFrom, List.map_cons, List.map_cons, Int.toNat_natCast,
        h term (by simp) hfirst, ih (fun u hu => h u (by simp [hu])) hrest]

theorem exists_of_prefix {base : Nat} {node : Node α} {rest : List (Node α)}
    (h : node :: rest <+: (t.nodes.toList.drop base).map Node.plain) :
    ∃ hi : base < t.size, (t.node base hi).plain = node ∧
      rest <+: (t.nodes.toList.drop (base + 1)).map Node.plain := by
  rw [List.map_drop] at h
  obtain ⟨hnode, hrest⟩ := Arena.getElem?_of_cons_prefix h
  rw [List.getElem?_map, Option.map_eq_some_iff] at hnode
  obtain ⟨found, hfound, rfl⟩ := hnode
  obtain ⟨hlt, rfl⟩ := List.getElem?_eq_some_iff.1 hfound
  exact ⟨hlt, rfl, by rwa [List.map_drop]⟩

theorem Begins.node_apply {place : Nat} {op : Operator} {operands : List (Term (Leaf α))}
    (h : t.Begins place (.apply op operands)) : ∃ hi : place < t.size,
      (t.node place hi).kind = .operator op ∧
        (t.node place hi).children = starts (place + 1) operands ∧
          nodesOfAll Leaf.node (place + 1) operands <+:
            (t.nodes.toList.drop (place + 1)).map Node.plain := by
  obtain ⟨hi, hplain, hrest⟩ := exists_of_prefix h
  refine ⟨hi, ?_, ?_, hrest⟩
  · rw [← Node.kind_plain, hplain]
    rfl
  · rw [← Node.children_plain, hplain]
    rfl

theorem Begins.node_leaf {place : Nat} {leaf : Leaf α} (h : t.Begins place (.leaf leaf)) :
    ∃ hi : place < t.size, (t.node place hi).plain = leaf.node := by
  obtain ⟨hi, hplain, -⟩ := exists_of_prefix h
  exact ⟨hi, hplain⟩

theorem Begins.exists_apply {place : Nat} {term : Term (Leaf α)} {hi : place < t.size}
    {op : Operator} (h : t.Begins place term)
    (hkind : (t.node place hi).kind = .operator op) : ∃ operands, term = .apply op operands := by
  cases term with
  | leaf leaf =>
      obtain ⟨_, hplain⟩ := h.node_leaf
      rw [← Node.kind_plain, hplain] at hkind
      cases leaf <;> cases hkind
  | apply op' operands =>
      obtain ⟨_, hkind', -⟩ := h.node_apply
      obtain rfl := Kind.operator.inj (hkind.symm.trans hkind')
      exact ⟨operands, rfl⟩

theorem foldAt?_of_begins
    (hleaf : ∀ i (node : Node α) (leaf : Leaf α), node.plain = leaf.node →
      combine i node [] = onLeaf i leaf)
    (happly : ∀ i (node : Node α) op children operands, node.plain = .operator op children →
      combine i node operands = onApply i op operands) {term : Term (Leaf α)} {base : Nat}
    (h : t.Begins base term) :
    t.foldAt? combine base = some (term.foldFrom onLeaf onApply base) := by
  induction term generalizing base with
  | leaf leaf =>
      obtain ⟨hi, hplain, -⟩ := exists_of_prefix h
      have hchildren : (t.node base hi).children = [] := by
        rw [← Node.children_plain, hplain]
        cases leaf <;> rfl
      have hoperands : (t.node base hi).children.map (fun child => t.foldAt? combine child.toNat) =
          ([] : List γ).map some := by
        rw [hchildren]
        rfl
      rw [foldAt?_eq hi hoperands, hleaf base _ leaf hplain, Term.foldFrom]
  | apply op operands ih =>
      obtain ⟨hi, hplain, hrest⟩ := exists_of_prefix h
      have hchildren : (t.node base hi).children = starts (base + 1) operands := by
        rw [← Node.children_plain, hplain]
        rfl
      have hoperands := foldAt?_starts ih hrest
      rw [← hchildren] at hoperands
      rw [foldAt?_eq hi hoperands, happly base _ op _ _ hplain, Term.foldFrom]

/-- The fold of a tree is the fold of the term that it is laid out from. -/
theorem fold_eq {onLeaf : Leaf α → γ} {onApply : Operator → List γ → γ} {term : Term (Leaf α)}
    (hterm : t.nodes.toList.map Node.plain = Term.nodes Leaf.node 0 term)
    (hleaf : ∀ i (node : Node α) (leaf : Leaf α), node.plain = leaf.node →
      combine i node [] = onLeaf leaf)
    (happly : ∀ i (node : Node α) op children operands, node.plain = .operator op children →
      combine i node operands = onApply op operands) :
    t.fold combine = term.fold onLeaf onApply := by
  have hfold := foldAt?_of_begins hleaf happly (begins_zero hterm)
  rw [foldAt?, dif_pos t.size_pos, Term.foldFrom_eq_fold] at hfold
  exact Option.some.inj hfold

end Tree

end PrefixIntegral
