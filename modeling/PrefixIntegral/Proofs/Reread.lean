import PrefixIntegral.Proofs.Canonical

namespace PrefixIntegral

open Grammar (IsWord IsToken)

namespace Node

def reread (symbol : Text) (node : Node Float) : Node Float :=
  if node.kind.isLeaf then Formula.wordNode symbol (node.token symbol) else node.plain

theorem writeNode_plain (symbol : Text) (node : Node Float) (operands : List Text) :
    Tree.writeNode symbol node.plain operands = Tree.writeNode symbol node operands := by
  obtain ⟨kind, value, children⟩ := node
  cases kind <;> rfl

theorem reread_plain (symbol : Text) (node : Node Float) :
    node.plain.reread symbol = node.reread symbol := by
  obtain ⟨kind, value, children⟩ := node
  cases kind <;> rfl

theorem reread_node (symbol : Text) (leaf : Leaf Float) :
    leaf.node.reread symbol = Formula.wordNode symbol (leaf.word symbol) := by
  cases leaf <;> rfl

theorem same_iff {first second : Node Float} : first.same second = true ↔
    first.kind = second.kind ∧ (first.value == second.value) = true ∧
      first.children = second.children := by
  simp only [same, Bool.and_eq_true, beq_iff_eq, and_assoc]
  rfl

theorem reread_of_token_eq {symbol : Text} {node : Node Float} (hleaf : node.kind.isLeaf = true)
    (htoken : node.token symbol = symbol) : node.reread symbol = .argument := by
  rw [reread, if_pos hleaf, htoken, Formula.wordNode, Grammar.meaning, if_pos rfl]
  rfl

/-- A node is reread with its value, if that has a meaning, unless it is a constant with the word of
the variable. -/
theorem reread_eq_plain {symbol : Text} {node : Node Float} {place : Nat}
    (hcheck : Arena.checkNode place node = .ok ())
    (hne : node.kind = .constant → node.token symbol ≠ symbol) :
    node.reread symbol = node.plain := by
  obtain ⟨kind, x, children⟩ := node
  cases kind with
  | argument =>
      obtain rfl : children = [] := by simpa [Arena.checkNode] using hcheck
      exact reread_of_token_eq rfl rfl
  | constant =>
      obtain ⟨rfl, hx⟩ := (Arena.checkNode_constant_iff rfl).1 hcheck
      have hmeaning := @Leaf.meaning_word symbol (.constant x) hx fun _ => hne rfl
      exact congrArg Leaf.node hmeaning
  | operator op => rfl
  | unknown number => cases hcheck

theorem same_plain {node : Node Float} {place : Nat} (hcheck : Arena.checkNode place node = .ok ())
    (hvalue : node.kind ≠ .constant → (node.value == 0) = true) : node.plain.same node = true := by
  by_cases hkind : node.kind = .constant
  · rw [plain_of_constant hkind, same_iff]
    exact ⟨rfl, Binary64.beq_self ((Arena.checkNode_constant_iff hkind).1 hcheck).2, rfl⟩
  · rw [plain_of_ne hkind, same_iff]
    exact ⟨rfl, Binary64.zero_beq (hvalue hkind), rfl⟩

/-- A node with no other value than its kind allows is reread as the same, unless it is a constant
with the word of the variable. -/
theorem same_reread_iff {symbol : Text} {node : Node Float} {place : Nat}
    (hcheck : Arena.checkNode place node = .ok ())
    (hvalue : node.kind ≠ .constant → (node.value == 0) = true) :
    (node.reread symbol).same node = true ↔
      (node.kind = .constant → node.token symbol ≠ symbol) := by
  constructor
  · intro hsame hkind htoken
    have hargument := reread_of_token_eq (by rw [hkind]; rfl) htoken
    rw [hargument, same_iff, hkind] at hsame
    cases hsame.1
  · intro hne
    rw [reread_eq_plain hcheck hne]
    exact same_plain hcheck hvalue

end Node

namespace Tree

theorem write_eq {t : Tree Float} {term : Term (Leaf Float)}
    (hterm : t.nodes.toList.map Node.plain = Term.nodes Leaf.node 0 term) :
    t.write = Grammar.canonical (term.map (Leaf.word t.symbol)) := by
  rw [Grammar.canonical, Term.fold_map]
  refine fold_eq hterm (fun _ node leaf hplain => ?_) fun _ node op children operands hplain => ?_
  · rw [← Node.writeNode_plain, hplain]
    cases leaf <;> rfl
  · rw [← Node.writeNode_plain, hplain]
    rfl

/-- The canonical formula of a tree is read, into its nodes reread, if the root is an operator and
all leaves have words that a formula may have. -/
theorem exists_read_of_fits {t : Tree Float} {op : Operator} {operands : List (Term (Leaf Float))}
    (hterm : t.nodes.toList.map Node.plain = Term.nodes Leaf.node 0 (.apply op operands))
    (hfits : (Term.apply op operands).Fits fun leaf => IsToken t.symbol (leaf.word t.symbol)) :
    ∃ found, Formula.read t.write t.symbol = .ok found ∧ found.symbol = t.symbol ∧
      found.nodes.toList = t.nodes.toList.map (Node.reread t.symbol) := by
  have hwords : (Term.map (Leaf.word t.symbol) (.apply op operands)).Fits (IsToken t.symbol) :=
    hfits.map (f := Leaf.word t.symbol) fun _ htoken => htoken
  have hoperand := Grammar.isOperand_canonical hwords
  rw [← write_eq hterm, Term.map_apply] at hoperand
  have hformula := Grammar.isFormula_of_isOperand hoperand
  obtain ⟨found, hfound, hread⟩ :=
    Formula.exists_ofNodes (Formula.readNodes_iff.2 ⟨_, hformula, rfl⟩)
  obtain ⟨hnodes, hname, -⟩ := Formula.ofNodes_iff.1 hfound
  refine ⟨found, hread, hname, ?_⟩
  have hreread := Term.map_nodes (Node.reread_node t.symbol) (fun _ _ => rfl) 0
    (.apply op operands)
  rw [hnodes, ← Term.map_apply, ← hreread, ← hterm, List.map_map]
  exact List.map_congr_left fun node _ => Node.reread_plain t.symbol node

theorem exists_read_write {t : Tree Float} {op : Operator}
    (hroot : (t.node 0 t.size_pos).kind = .operator op) (hsymbol : IsWord t.symbol) :
    ∃ found, Formula.read t.write t.symbol = .ok found ∧ found.symbol = t.symbol ∧
      found.nodes.toList = t.nodes.toList.map (Node.reread t.symbol) := by
  obtain ⟨term, hfits, hterm⟩ := Arena.exists_term_of_validate t.valid
  obtain ⟨operands, rfl⟩ := (begins_zero hterm).exists_apply hroot
  exact exists_read_of_fits hterm (hfits.mono fun _ hleaf => Leaf.isToken_word hsymbol hleaf)

/-- Every constant of the second tree is found in the first at its place, the identical number. -/
def KeepsConstants (found t : Tree Float) : Prop :=
  ∀ (i : Nat) (node : Node Float), t.nodes[i]? = some node → node.kind = .constant →
    found.nodes[i]? = some node

theorem all_zip_map {β γ : Type} (f : β → γ) (p : γ × β → Bool) (l : List β) :
    ((l.map f).zip l).all p = l.all fun x => p (f x, x) := by
  induction l with
  | nil => rfl
  | cons x rest ih => rw [List.map_cons, List.zip_cons_cons, List.all_cons, List.all_cons, ih]

/-- The canonical formula of a tree is read, and what is read is the same tree with the identical
constants exactly if no constant has the word of the variable. It is never the same tree with other
constants. -/
theorem read_write (t : Tree Float) {op : Operator}
    (hroot : (t.node 0 t.size_pos).kind = .operator op) (hsymbol : IsWord t.symbol)
    (hvalues : ∀ node ∈ t.nodes, node.kind ≠ .constant → (node.value == 0) = true) :
    ∃ found, Formula.read t.write t.symbol = .ok found ∧
      ((found.same t = true ∧ found.KeepsConstants t) ↔
        ∀ node ∈ t.nodes, node.kind = .constant → node.token t.symbol ≠ t.symbol) ∧
      (found.same t = true → found.KeepsConstants t) := by
  obtain ⟨found, hread, hname, hnodes⟩ := exists_read_write hroot hsymbol
  have hcheck : ∀ node ∈ t.nodes, ∃ place, Arena.checkNode place node = .ok () := by
    intro node hmem
    exact Arena.checkNode_of_mem (Arena.validate_checkNodes t.valid) (Array.mem_toList_iff.2 hmem)
  have hsame : found.same t = true ↔
      ∀ node ∈ t.nodes, node.kind = .constant → node.token t.symbol ≠ t.symbol := by
    have hsize := congrArg List.length hnodes
    rw [List.length_map, Array.length_toList, Array.length_toList] at hsize
    simp only [same, hname, hsize, hnodes, all_zip_map, beq_self_eq_true, Bool.true_and,
      List.all_eq_true, Array.mem_toList_iff]
    refine forall₂_congr ?_
    intro node hmem
    obtain ⟨place, hplace⟩ := hcheck node hmem
    exact Node.same_reread_iff hplace (hvalues node hmem)
  have hkeeps : found.same t = true → found.KeepsConstants t := by
    intro h i node hi hkind
    have hmem := Array.mem_of_getElem? hi
    obtain ⟨place, hplace⟩ := hcheck node hmem
    rw [← Array.getElem?_toList, hnodes, List.getElem?_map, Array.getElem?_toList, hi,
      Option.map_some, Node.reread_eq_plain hplace (hsame.1 h node hmem),
      Node.plain_of_constant hkind]
  refine ⟨found, hread, ?_, hkeeps⟩
  rw [← hsame]
  constructor
  · intro h
    exact h.1
  · intro h
    exact ⟨h, hkeeps h⟩

/-- The tree of a sum of the variable, the circle constant, the negative zero and an infinity. -/
def unusualSum : Tree Float :=
  Term.toTree
    (.apply .add [.leaf .argument, .leaf (.constant Literal.pi), .leaf (.constant (-0)),
      .leaf (.constant (1 / 0))])
    (.apply rfl (by
      simp only [List.forall_mem_cons, List.not_mem_nil, false_implies, implies_true, and_true]
      refine ⟨.leaf trivial, .leaf ?_, .leaf ?_, .leaf ?_⟩
      all_goals
        show Float.isNaN _ = false
        decide)) ['x']

theorem forall_mem_unusualSum {p : Node Float → Prop} :
    (∀ node ∈ unusualSum.nodes, p node) ↔ p (.operator .add [1, 2, 3, 4]) ∧ p .argument ∧
      p (.constant Literal.pi) ∧ p (.constant (-0)) ∧ p (.constant (1 / 0)) := by
  have hnodes : unusualSum.nodes.toList = [.operator .add [1, 2, 3, 4], .argument,
      .constant Literal.pi, .constant (-0), .constant (1 / 0)] := rfl
  simp only [← Array.mem_toList_iff, hnodes, List.forall_mem_cons, List.not_mem_nil, false_implies,
    implies_true, and_true]

theorem read_write_unusualSum :
    ∃ found, Formula.read unusualSum.write unusualSum.symbol = .ok found ∧
      found.same unusualSum = true ∧ found.KeepsConstants unusualSum := by
  have hsymbol : IsWord unusualSum.symbol := .of_all (by decide) (by decide)
  have hvalues : ∀ node ∈ unusualSum.nodes, node.kind ≠ .constant → (node.value == 0) = true :=
    forall_mem_unusualSum.2 ⟨fun _ => by decide, fun _ => by decide, fun h => absurd rfl h,
      fun h => absurd rfl h, fun h => absurd rfl h⟩
  have htokens : ∀ node ∈ unusualSum.nodes, node.kind = .constant →
      node.token unusualSum.symbol ≠ unusualSum.symbol :=
    forall_mem_unusualSum.2
      ⟨nofun, nofun, fun _ => by decide, fun _ => by decide, fun _ => by decide⟩
  obtain ⟨found, hread, hiff, -⟩ := read_write unusualSum rfl hsymbol hvalues
  exact ⟨found, hread, hiff.2 htokens⟩

end Tree
end PrefixIntegral
