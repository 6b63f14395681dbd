import PrefixIntegral.Proofs.Checks

/-!
Layouts of terms against the checks of arenas: every layout of a term passes them, and what passes
them is the layout of a term, up to the values of nodes that are no constants.
-/

namespace PrefixIntegral

open Term (nodes nodesOfAll starts sizeOfAll)

variable {α β : Type} [Scalar α]

def Node.plain (node : Node α) : Node α :=
  match node.kind with
  | .constant => node
  | _ => { node with value := Scalar.ofInt 0 }

@[simp] theorem Node.children_plain (node : Node α) : node.plain.children = node.children := by
  unfold Node.plain
  split <;> rfl

@[simp] theorem Node.kind_plain (node : Node α) : node.plain.kind = node.kind := by
  unfold Node.plain
  split <;> rfl

theorem Node.plain_of_constant {node : Node α} (hkind : node.kind = .constant) :
    node.plain = node := by
  rw [plain, hkind]

theorem Node.plain_of_ne {node : Node α} (hkind : node.kind ≠ .constant) :
    node.plain = { node with value := Scalar.ofInt 0 } := by
  unfold Node.plain
  split
  · exact absurd ‹_› hkind
  · rfl

@[simp] theorem Node.plain_plain (node : Node α) : node.plain.plain = node.plain := by
  obtain ⟨kind, value, children⟩ := node
  cases kind <;> rfl

@[simp] theorem Leaf.plain_node (leaf : Leaf α) : leaf.node.plain = leaf.node := by
  cases leaf <;> rfl

namespace Arena

def LeavesPass (leafNode : β → Node α) (passes : β → Prop) : Prop :=
  ∀ content, passes content →
    (leafNode content).children = [] ∧ ∀ place, checkNode place (leafNode content) = .ok ()

variable {leafNode : β → Node α} {passes : β → Prop}

theorem checkNodes_nodesOfAll {size base : Nat} {operands : List (Term β)}
    (h : ∀ t ∈ operands, ∀ {base}, base + t.size ≤ size →
      checkNodes size base (nodes leafNode base t) = .ok ())
    (hsize : base + sizeOfAll operands ≤ size) :
    checkNodes size base (nodesOfAll leafNode base operands) = .ok () := by
  induction operands generalizing base with
  | nil => rfl
  | cons t rest ih =>
      rw [sizeOfAll] at hsize
      rw [nodesOfAll, checkNodes_append_iff, Term.length_nodes]
      exact ⟨h t (by simp) (by omega), ih (fun u hu => h u (by simp [hu])) (by omega)⟩

theorem checkNodes_nodes (hleaf : LeavesPass leafNode passes) {t : Term β} (ht : t.Fits passes)
    {size base : Nat} (hsize : base + t.size ≤ size) :
    checkNodes size base (nodes leafNode base t) = .ok () := by
  induction ht generalizing base with
  | leaf hc =>
      obtain ⟨hchildren, hcheck⟩ := hleaf _ hc
      rw [nodes, checkNodes_cons_iff]
      exact ⟨hcheck base, by simp [hchildren], rfl⟩
  | @apply op operands ha hops ih =>
      rw [Term.size] at hsize
      rw [nodes, checkNodes_cons_iff]
      refine ⟨?_, ?_, checkNodes_nodesOfAll ih (by omega)⟩
      · simp [checkNode, Node.operator, ha]
      · intro child hm
        have := Term.mem_starts hm
        omega

theorem count_children_nodesOfAll (base : Nat) {place : Nat} {operands : List (Term β)}
    (h : ∀ t ∈ operands, ∀ {base},
      ((nodes leafNode base t).flatMap Node.children).count (place : Int) =
        if base < place ∧ place < base + t.size then 1 else 0) :
    ((nodesOfAll leafNode base operands).flatMap Node.children).count (place : Int) +
        (starts base operands).count (place : Int) =
      if base ≤ place ∧ place < base + sizeOfAll operands then 1 else 0 := by
  induction operands generalizing base with
  | nil =>
      rw [if_neg (by simp only [sizeOfAll]; omega)]
      rfl
  | cons t rest ih =>
      have hfirst := @h t (by simp) base
      have hrest := ih (base + t.size) fun u hu => h u (by simp [hu])
      have hpos := t.size_pos
      rw [nodesOfAll, starts, sizeOfAll, List.flatMap_append, List.count_append, List.count_cons,
        hfirst]
      simp only [beq_iff_eq]
      split at hrest <;> split <;> split <;> split <;> omega

theorem count_children_nodes (hleaf : LeavesPass leafNode passes) {t : Term β}
    (ht : t.Fits passes) (base place : Nat) :
    ((nodes leafNode base t).flatMap Node.children).count (place : Int) =
      if base < place ∧ place < base + t.size then 1 else 0 := by
  induction ht generalizing base with
  | leaf hc =>
      rw [nodes, Term.size, List.flatMap_cons, (hleaf _ hc).1]
      simp only [List.flatMap_nil, List.append_nil, List.count_nil]
      split <;> omega
  | @apply op operands ha hops ih =>
      have hall := count_children_nodesOfAll (base + 1) ih
      rw [nodes, Term.size, List.flatMap_cons, List.count_append, Node.operator, Nat.add_comm, hall]
      split <;> split <;> omega

theorem checkOrder_starts {arena : Arena α} {base : Nat} {operands : List (Term β)}
    {pending : List Int}
    (h : ∀ t ∈ operands, ∀ {base pending}, nodes leafNode base t <+: arena.toList.drop base →
      arena.checkOrder base ((base : Int) :: pending) = arena.checkOrder (base + t.size) pending)
    (hinit : nodesOfAll leafNode base operands <+: arena.toList.drop base) :
    arena.checkOrder base (starts base operands ++ pending) =
      arena.checkOrder (base + sizeOfAll operands) pending := by
  induction operands generalizing base with
  | nil => rfl
  | cons t rest ih =>
      rw [nodesOfAll] at hinit
      obtain ⟨after, hafter⟩ := hinit
      have hdrop : arena.toList.drop (base + t.size) =
          nodesOfAll leafNode (base + t.size) rest ++ after := by
        rw [← List.drop_drop, ← hafter, List.append_assoc, List.drop_left' (by simp)]
      rw [starts, List.cons_append, h t (by simp) ⟨_, by rw [← hafter, List.append_assoc]⟩,
        ih (fun u hu => h u (by simp [hu])) ⟨after, hdrop.symm⟩, sizeOfAll, Nat.add_assoc]

theorem checkOrder_nodes (hleaf : LeavesPass leafNode passes) {arena : Arena α} {t : Term β}
    (ht : t.Fits passes) {base : Nat} {pending : List Int}
    (hinit : nodes leafNode base t <+: arena.toList.drop base) :
    arena.checkOrder base ((base : Int) :: pending) = arena.checkOrder (base + t.size) pending := by
  induction ht generalizing base pending with
  | leaf hc =>
      obtain ⟨hlt, hchildren, -⟩ := childrenAt_of_prefix hinit
      rw [checkOrder, if_neg (by simp), if_pos hlt, hchildren, (hleaf _ hc).1]
      rfl
  | @apply op operands ha hops ih =>
      obtain ⟨hlt, hchildren, hrest⟩ := childrenAt_of_prefix hinit
      rw [checkOrder, if_neg (by simp), if_pos hlt, hchildren, Node.operator,
        checkOrder_starts ih hrest, Term.size, Nat.add_right_comm, Nat.add_assoc]

/-- The layout of a term is an arena that passes the checks. -/
theorem validate_nodes (hleaf : LeavesPass leafNode passes) {t : Term β} (ht : t.Fits passes)
    {arena : Arena α} (harena : arena.toList = nodes leafNode 0 t) : arena.validate 0 = .ok () := by
  have hsize : arena.size = t.size := by
    rw [← Array.length_toList, harena, Term.length_nodes]
  have hpos := t.size_pos
  have hcheck : checkNodes arena.size 0 arena.toList = .ok () := by
    rw [harena]
    exact checkNodes_nodes hleaf ht (by omega)
  have hrefs : ∀ place < arena.size, arena.references place = if place = 0 then 0 else 1 := by
    intro place hplace
    rw [references, harena, count_children_nodes hleaf ht]
    split <;> split <;> omega
  have hparent : ∀ place, 0 < place → place < arena.size →
      ∃ parent < place, (place : Int) ∈ arena.childrenAt parent := by
    intro place hzero hplace
    apply parent_of_references hcheck
    rw [hrefs place hplace, if_neg (by omega)]
    omega
  have horder : arena.checkOrder 0 [((0 : Nat) : Int)] = .ok () := by
    rw [checkOrder_nodes hleaf ht (by simp [harena]), checkOrder]
  rw [validate_iff]
  exact ⟨by omega, hcheck, fun place hplace => checkReferences_zero_iff.2 (hrefs place hplace),
    reachable_of_parent hparent, horder⟩

theorem leavesPass_leaf : LeavesPass (α := α) Leaf.node Leaf.IsNumber := by
  intro leaf hleaf
  cases leaf with
  | argument => exact ⟨rfl, fun _ => rfl⟩
  | constant value =>
      refine ⟨rfl, ?_⟩
      intro _
      have hvalue : Scalar.isNaN value = false := hleaf
      simp [checkNode, Leaf.node, Node.constant, hvalue]

theorem exists_term_of_checkNode {place position : Nat} {node : Node α}
    (hcheck : checkNode place node = .ok ()) {operands : List (Term (Leaf α))}
    (hchildren : node.children = starts (position + 1) operands)
    (hfits : ∀ t ∈ operands, t.Fits Leaf.IsNumber) :
    ∃ t : Term (Leaf α), t.Fits Leaf.IsNumber ∧ t.size = sizeOfAll operands + 1 ∧
      nodes Leaf.node position t = node.plain :: nodesOfAll Leaf.node (position + 1) operands := by
  obtain ⟨kind, value, children⟩ := node
  subst hchildren
  cases kind with
  | argument =>
      cases operands with
      | nil => exact ⟨.leaf .argument, .leaf trivial, rfl, rfl⟩
      | cons t rest => simp [checkNode, starts] at hcheck
  | constant =>
      cases operands with
      | nil =>
          have hvalue : Scalar.isNaN value = false := by simpa [checkNode, starts] using hcheck
          exact ⟨.leaf (.constant value), .leaf hvalue, rfl, rfl⟩
      | cons t rest => simp [checkNode, starts] at hcheck
  | operator op =>
      have ha : op.arity.accepts operands.length := by simpa [checkNode] using hcheck
      exact ⟨.apply op operands, .apply ha hfits, rfl, rfl⟩
  | unknown number => simp [checkNode] at hcheck

theorem exists_terms_of_checkOrder {arena : Arena α}
    (hcheck : checkNodes arena.size 0 arena.toList = .ok ()) {position : Nat} {pending : List Int}
    (h : arena.checkOrder position pending = .ok ()) :
    ∃ operands : List (Term (Leaf α)), pending = starts position operands ∧
      (∀ t ∈ operands, t.Fits Leaf.IsNumber) ∧
        nodesOfAll Leaf.node position operands <+: (arena.toList.drop position).map Node.plain := by
  fun_induction checkOrder arena position pending with
  | case1 position => exact ⟨[], rfl, by simp, List.nil_prefix⟩
  | case2 position place pending hplace => simp at h
  | case3 position place pending hplace hlt ih =>
      obtain rfl : place = position := Decidable.not_not.1 hplace
      have hin : position < arena.toList.length := by simpa using hlt
      obtain ⟨found, hfound, hfits, hinit⟩ := ih h
      rw [childrenAt_of_getElem? (List.getElem?_eq_getElem hin)] at hfound
      obtain ⟨operands, others, rfl, hchildren, hpending⟩ := Term.exists_of_append_eq_starts hfound
      have hnode : checkNode position arena.toList[position] = .ok () := by
        have hsplit := List.take_append_drop position arena.toList
        rw [← hsplit, checkNodes_append_iff, List.drop_eq_getElem_cons hin,
          checkNodes_cons_iff, List.length_take_of_le (by omega), Nat.zero_add] at hcheck
        exact hcheck.2.1
      obtain ⟨t, ht, hsize, hnodes⟩ :=
        exists_term_of_checkNode hnode hchildren fun u hu => hfits u (by simp [hu])
      refine ⟨t :: others, ?_, ?_, ?_⟩
      · rw [starts, hpending, hsize, Nat.add_right_comm, Nat.add_assoc]
      · intro u hu
        rcases List.mem_cons.1 hu with rfl | hu
        · exact ht
        · exact hfits u (by simp [hu])
      · rw [nodesOfAll, hnodes, hsize, List.cons_append, List.drop_eq_getElem_cons hin,
          List.map_cons, List.cons_prefix_cons]
        rw [Term.nodesOfAll_append] at hinit
        refine ⟨rfl, ?_⟩
        rwa [show position + (sizeOfAll operands + 1) = position + 1 + sizeOfAll operands by omega]
  | case4 position place pending hplace hout => simp at h

/-- An arena that passes the checks is the layout of a term. -/
theorem exists_term_of_validate {arena : Arena α} (h : arena.validate 0 = .ok ()) :
    ∃ t : Term (Leaf α), t.Fits Leaf.IsNumber ∧
      arena.toList.map Node.plain = nodes Leaf.node 0 t := by
  obtain ⟨-, hcheck, hrefs, -, horder⟩ := validate_iff.1 h
  obtain ⟨operands, hroot, hfits, hinit⟩ := exists_terms_of_checkOrder hcheck horder
  match operands, hroot with
  | [t], _ =>
    have ht := hfits t (by simp)
    refine ⟨t, ht, ?_⟩
    obtain ⟨rest, hrest⟩ := hinit
    rw [nodesOfAll, nodesOfAll, List.append_nil, List.drop_zero] at hrest
    have hlength := congrArg List.length hrest
    have hsize : arena.toList.length = arena.size := Array.length_toList
    rw [List.length_append, List.length_map, Term.length_nodes] at hlength
    suffices hall : arena.size ≤ t.size by
      obtain rfl : rest = [] := List.length_eq_zero_iff.1 (by omega)
      rw [← hrest, List.append_nil]
    -- The place after the layout would have an operator inside it, whose operands are all inside.
    refine Nat.le_of_not_lt ?_
    intro hlt
    have hpos := t.size_pos
    have hone := checkReferences_zero_iff.1 (hrefs t.size hlt)
    rw [if_neg (by omega)] at hone
    obtain ⟨parent, hparent, hmem⟩ := parent_of_references hcheck (hone ▸ Nat.one_pos)
    have hin : parent < arena.toList.length := by simpa using lt_size_of_mem_childrenAt hmem
    have hnode : (nodes Leaf.node 0 t)[parent]? = some arena.toList[parent].plain := by
      have hwhole := congrArg (·[parent]?) hrest
      rwa [List.getElem?_append_left (by simpa using hparent), List.getElem?_map,
        List.getElem?_eq_getElem hin, Option.map_some] at hwhole
    rw [childrenAt_of_getElem? (List.getElem?_eq_getElem hin)] at hmem
    have hcount := count_children_nodes leavesPass_leaf ht 0 t.size
    rw [if_neg (by omega), List.count_eq_zero] at hcount
    exact hcount (List.mem_flatMap.2 ⟨_, List.mem_of_getElem? hnode, by simpa using hmem⟩)

end Arena

def Term.toTree {α : Type} [Scalar α] (t : Term (Leaf α)) (ht : t.Fits Leaf.IsNumber)
    (symbol : Text) : Tree α :=
  ⟨(nodes Leaf.node 0 t).toArray, symbol, none,
    Arena.validate_nodes Arena.leavesPass_leaf ht List.toList_toArray⟩

end PrefixIntegral
