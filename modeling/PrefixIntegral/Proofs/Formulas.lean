import PrefixIntegral.Proofs.Binary64
import PrefixIntegral.Proofs.Preorder
import PrefixIntegral.Proofs.Reading

namespace PrefixIntegral.Formula

open Grammar (IsOperand IsFormula)

/-- A formula is a group, found by its first and its closing parenthesis, and nothing but blanks
around it. -/
theorem isFormula_iff {symbol formula : Text} {phrase : Phrase} :
    IsFormula symbol formula phrase ↔ ∃ m rest g,
      Mark.skipBlanks (Mark.ofText formula) = m :: rest ∧ m.char = '(' ∧
        Parentheses.close? rest = some g ∧ Mark.skipBlanks g.after = [] ∧
          IsOperand symbol (Operand.group m g.body g.closing).text phrase := by
  constructor
  · rintro ⟨before, text, after, hbefore, hgroup, hafter, rfl⟩
    have hmarks := Mark.text_ofText (before ++ text ++ after)
    obtain ⟨front, rest, hfront, htext, rfl⟩ := Mark.text_eq_append hmarks
    obtain ⟨lead, group, rfl, rfl, rfl⟩ := Mark.text_eq_append htext
    obtain ⟨opening, body, closing, ho, rfl⟩ := Operand.exists_of_isGroup hgroup
    have hopen : opening.isBlank = false := by
      rw [Mark.isBlank, ho.1]
      decide
    refine ⟨opening, body ++ closing :: rest, ⟨body, closing, rest⟩, ?_, ho.1,
      Parentheses.close?_iff.2 ⟨rfl, ho.2⟩, ?_, .group hgroup⟩
    · rw [hfront, List.append_assoc, Mark.skipBlanks_append (Mark.isAllBlank_text.1 hbefore)]
      simpa [Operand.marks] using Mark.skipBlanks_cons_of_not hopen
    · show Mark.skipBlanks rest = []
      rw [← List.append_nil rest, Mark.skipBlanks_append (Mark.isAllBlank_text.1 hafter)]
      rfl
  · rintro ⟨m, rest, g, hskip, hopen, hg, hafter, hphrase⟩
    obtain ⟨-, lead, hlead, hformula⟩ := Mark.exists_of_skipBlanks hskip
    obtain ⟨rfl, hclose, hbody⟩ := Parentheses.close?_iff.1 hg
    refine ⟨Mark.text lead, _, Mark.text g.after, Mark.isAllBlank_text.2 hlead,
      isGroup_of_isOperand ⟨hopen, hclose, hbody⟩ hphrase,
      Mark.isAllBlank_text.2 (Mark.all_isBlank_of_skipBlanks hafter), ?_⟩
    rw [← Mark.text_ofText formula, hformula]
    simp [Operand.text, Operand.marks]

theorem isFormula_unique {symbol formula : Text} {first second : Phrase}
    (hfirst : IsFormula symbol formula first)
    (hsecond : IsFormula symbol formula second) : first = second := by
  obtain ⟨m, rest, g, hskip, hopen, hg, -, hphrase⟩ := isFormula_iff.1 hfirst
  obtain ⟨m', rest', g', hskip', -, hg', -, hphrase'⟩ := isFormula_iff.1 hsecond
  rw [hskip] at hskip'
  cases hskip'
  rw [hg] at hg'
  cases hg'
  have ho : (Operand.group m g.body g.closing).Sound := ⟨hopen, (Parentheses.close?_iff.1 hg).2⟩
  exact isOperand_unique ho hphrase hphrase'

theorem check_of_isFormula {symbol formula : Text} {phrase : Phrase}
    (h : IsFormula symbol formula phrase) :
    Text.isAllBlank formula = false ∧ Parentheses.check formula = .ok () := by
  obtain ⟨before, text, after, hbefore, hgroup, hafter, rfl⟩ := h
  have hmem : '(' ∈ before ++ text ++ after := by
    cases hgroup
    simp
  have hbalanced := ((Grammar.balanced_of_isAllBlank hbefore).append
    (IsOperand.group hgroup).balanced).append (Grammar.balanced_of_isAllBlank hafter)
  constructor
  · refine Bool.eq_false_iff.2 ?_
    intro hblank
    exact absurd (List.all_eq_true.1 hblank '(' hmem) (by decide)
  · exact check_of_balanced hmem hbalanced

/-- A formula is read exactly if the grammar derives it, into the layout of its phrase. -/
theorem readNodes_iff {formula symbol : Text} {nodes : List (Node Float)} :
    readNodes formula symbol = .ok nodes ↔
      ∃ phrase, IsFormula symbol formula phrase ∧
        nodes = phrase.nodes (wordNode symbol) 0 := by
  constructor
  · intro h
    unfold readNodes at h
    split at h
    · cases h
    · split at h
      · cases h
      · split at h
        · cases h
        · rename_i m rest hskip
          split at h
          · cases h
          · rename_i hopen
            rw [not_not] at hopen
            split at h
            · cases h
            · rename_i g hg
              split at h
              · cases h
              · rename_i hafter
                have ho : (Operand.group m g.body g.closing).Sound :=
                  ⟨hopen, (Parentheses.close?_iff.1 hg).2⟩
                obtain ⟨phrase, hphrase, rfl⟩ := (readOperand_iff ho).1 h
                exact ⟨phrase, isFormula_iff.2 ⟨m, rest, g, hskip, hopen, hg, hafter, hphrase⟩, rfl⟩
  · rintro ⟨phrase, hformula, rfl⟩
    obtain ⟨hblank, hcheck⟩ := check_of_isFormula hformula
    obtain ⟨m, rest, g, hskip, hopen, hg, hafter, hphrase⟩ := isFormula_iff.1 hformula
    have ho : (Operand.group m g.body g.closing).Sound :=
      ⟨hopen, (Parentheses.close?_iff.1 hg).2⟩
    simp only [readNodes, hblank, hcheck, hskip, hopen, hg, hafter, Bool.false_eq_true, if_false,
      ne_eq, not_true_eq_false]
    exact (readOperand_iff ho).2 ⟨phrase, hphrase, rfl⟩

theorem isNumber_meaning (symbol word : Text) : (Grammar.meaning symbol word).IsNumber := by
  unfold Grammar.meaning
  split
  · trivial
  · split
    · show Literal.pi.isNaN = false
      decide
    · show ((Literal.read? word).getD 0).isNaN = false
      unfold Literal.read?
      cases Literal.numeral? word with
      | none => decide
      | some numeral => exact Binary64.isNaN_toFloat numeral

theorem leavesPass_wordNode (symbol : Text) : Arena.LeavesPass (wordNode symbol) fun _ => True :=
  fun word _ => Arena.leavesPass_leaf _ (isNumber_meaning symbol word)

theorem validate_of_readNodes {formula symbol : Text} {nodes : List (Node Float)}
    (h : readNodes formula symbol = .ok nodes) : Arena.validate nodes.toArray 0 = .ok () := by
  obtain ⟨phrase, hformula, rfl⟩ := readNodes_iff.1 h
  obtain ⟨_, _, _, -, -, -, -, hphrase⟩ := isFormula_iff.1 hformula
  exact Arena.validate_nodes (leavesPass_wordNode symbol) hphrase.fits (List.toList_toArray)

theorem ofNodes_iff {nodes : Arena Float} {symbol : Text} {source : Option Text}
    {tree : Tree Float} : Tree.ofNodes nodes symbol source = .ok tree ↔
      tree.nodes = nodes ∧ tree.symbol = symbol ∧ tree.source = source := by
  obtain ⟨found, name, text, hvalid⟩ := tree
  unfold Tree.ofNodes
  split
  · simp only [Except.ok.injEq, Tree.mk.injEq]
    exact and_congr eq_comm (and_congr eq_comm eq_comm)
  · rename_i fault hfault
    refine iff_of_false (by simp) ?_
    rintro ⟨rfl, -⟩
    rw [hvalid] at hfault
    cases hfault

def treeOfNodes {nodes : List (Node Float)} {formula symbol : Text}
    (h : readNodes formula symbol = .ok nodes) : Tree Float :=
  ⟨nodes.toArray, symbol, some formula, validate_of_readNodes h⟩

theorem ofNodes_eq_treeOfNodes {nodes : List (Node Float)} {formula symbol : Text}
    (h : readNodes formula symbol = .ok nodes) :
    Tree.ofNodes nodes.toArray symbol (some formula) = .ok (treeOfNodes h) :=
  ofNodes_iff.2 ⟨rfl, rfl, rfl⟩

theorem read_eq_treeOfNodes {nodes : List (Node Float)} {formula symbol : Text}
    (h : readNodes formula symbol = .ok nodes) : read formula symbol = .ok (treeOfNodes h) := by
  simp only [read, h, ofNodes_eq_treeOfNodes h]

theorem exists_ofNodes {nodes : List (Node Float)} {formula symbol : Text}
    (h : readNodes formula symbol = .ok nodes) :
    ∃ tree, Tree.ofNodes nodes.toArray symbol (some formula) = .ok tree ∧
      read formula symbol = .ok tree :=
  ⟨treeOfNodes h, ofNodes_eq_treeOfNodes h, read_eq_treeOfNodes h⟩

/-- A text is read as a tree exactly if the grammar derives it. -/
theorem read_iff {formula symbol : Text} {tree : Tree Float} :
    read formula symbol = .ok tree ↔
      ∃ phrase, IsFormula symbol formula phrase ∧ tree.symbol = symbol ∧
        tree.source = some formula ∧ tree.nodes.toList = phrase.nodes (wordNode symbol) 0 := by
  constructor
  · intro h
    cases hnodes : readNodes formula symbol with
    | error fault => simp only [read, hnodes, reduceCtorEq] at h
    | ok nodes =>
        obtain ⟨found, hfound, hread⟩ := exists_ofNodes hnodes
        rw [h] at hread
        cases hread
        obtain ⟨hlist, hsymbol, hsource⟩ := ofNodes_iff.1 hfound
        obtain ⟨phrase, hphrase, rfl⟩ := readNodes_iff.1 hnodes
        exact ⟨phrase, hphrase, hsymbol, hsource, by rw [hlist]⟩
  · rintro ⟨phrase, hphrase, hsymbol, hsource, hlist⟩
    obtain ⟨found, hfound, hread⟩ := exists_ofNodes (readNodes_iff.2 ⟨phrase, hphrase, rfl⟩)
    have htree := (@ofNodes_iff (phrase.nodes (wordNode symbol) 0).toArray symbol (some formula)
      tree).2 ⟨by rw [← hlist], hsymbol, hsource⟩
    rw [htree] at hfound
    cases hfound
    exact hread

def IsTextFault {β : Type} (result : Except FormulaFault β) : Prop :=
  ∀ fault, result ≠ .error (.notATree fault)

theorem IsTextFault.bind {β γ : Type} {result : Except FormulaFault β}
    {f : β → Except FormulaFault γ} (h : IsTextFault result)
    (hf : ∀ value, result = .ok value → IsTextFault (f value)) : IsTextFault (result.bind f) := by
  cases result with
  | error fault =>
      intro other hother
      refine h other ?_
      cases hother
      rfl
  | ok value => exact hf value rfl

theorem IsTextFault.map {β γ : Type} {result : Except FormulaFault β} {f : β → γ}
    (h : IsTextFault result) : IsTextFault (result.map f) := by
  cases result with
  | error fault =>
      intro other hother
      refine h other ?_
      cases hother
      rfl
  | ok value =>
      intro other hother
      cases hother

theorem isTextFault_split (segment : List Mark) : IsTextFault (Operand.split [] segment) := by
  fun_induction Operand.split [] segment with
  | case4 _ _ _ _ _ _ _ _ _ _ _ _ ih => exact ih.map
  | case8 _ _ _ _ _ _ _ _ _ _ ih => exact ih.map
  | _ =>
      intro fault h
      cases h

theorem isTextFault_readHead (opening : Nat) (body : List Mark) :
    IsTextFault (readHead opening body) := by
  intro fault h
  unfold readHead at h
  split at h
  · cases h
  · split at h
    · split at h <;> cases h
    · dsimp only at h
      split at h
      · cases h
      · split at h
        · cases h
        · split at h <;> cases h

theorem isTextFault_readOperands (head : Head) : IsTextFault (readOperands head) := by
  intro fault h
  unfold readOperands at h
  split at h
  · rename_i other hother
    cases h
    exact isTextFault_split _ _ hother
  · split at h <;> cases h

theorem isTextFault_readLeaf (symbol word : Text) : IsTextFault (readLeaf symbol word) := by
  intro fault h
  unfold readLeaf at h
  split at h
  · cases h
  · split at h
    · cases h
    · split at h <;> cases h

theorem isTextFault_readEach {symbol : Text} {operands : List Operand}
    (h : ∀ o ∈ operands, ∀ base, IsTextFault (readOperand symbol base o)) (base : Nat) :
    IsTextFault (readEach symbol base operands) := by
  induction operands generalizing base with
  | nil =>
      rw [readEach]
      intro fault h
      cases h
  | cons o rest ih =>
      rw [readEach_cons]
      exact (h o (by simp) base).bind fun nodes _ => (ih (fun u hu => h u (by simp [hu])) _).map

theorem isTextFault_readOperand (symbol : Text) (base : Nat) (o : Operand) :
    IsTextFault (readOperand symbol base o) := by
  induction hsize : o.size using Nat.strongRecOn generalizing o base with
  | _ size ih =>
      cases o with
      | word first inner => exact (isTextFault_readLeaf _ _).map
      | group opening body closing =>
          rw [readOperand, readGroup_eq]
          refine (isTextFault_readHead _ _).bind ?_
          intro head hhead
          refine (isTextFault_readOperands _).bind ?_
          intro operands hoperands
          refine (isTextFault_readEach (fun o ho base => ih o.size ?_ base o rfl) _).map
          have hone := Operand.size_le_totalSize ho
          have hall := totalSize_readOperands_le hoperands
          have hle := length_readHead_le hhead
          rw [← hsize, Operand.size]
          omega

theorem isTextFault_checkFrom (depth : Nat) (marks : List Mark) :
    IsTextFault (Parentheses.checkFrom depth marks) := by
  induction marks generalizing depth with
  | nil =>
      intro fault h
      rw [Parentheses.checkFrom] at h
      split at h <;> cases h
  | cons m rest ih =>
      intro fault h
      rw [Parentheses.checkFrom_cons] at h
      split at h
      · cases h
      · exact ih _ fault h

theorem isTextFault_check (t : Text) : IsTextFault (Parentheses.check t) := by
  unfold Parentheses.check
  split
  · intro fault h
    cases h
  · exact isTextFault_checkFrom 0 _

theorem isTextFault_readNodes (formula symbol : Text) :
    IsTextFault (readNodes formula symbol) := by
  intro fault h
  unfold readNodes at h
  split at h
  · cases h
  · split at h
    · rename_i other hother
      cases h
      exact isTextFault_check _ _ hother
    · split at h
      · cases h
      · split at h
        · cases h
        · split at h
          · cases h
          · split at h
            · cases h
            · rename_i m _ _ _ _ g _ _ _
              exact isTextFault_readOperand symbol 0 (.group m g.body g.closing) fault h

theorem isTextFault_read (formula symbol : Text) : IsTextFault (read formula symbol) := by
  intro fault h
  cases hnodes : readNodes formula symbol with
  | error other =>
      simp only [read, hnodes] at h
      cases h
      exact isTextFault_readNodes _ _ _ hnodes
  | ok nodes =>
      obtain ⟨tree, -, hread⟩ := exists_ofNodes hnodes
      rw [hread] at h
      cases h

/-- Reading accepts just the formulas of the grammar. Such a formula has one phrase, and the tree
that is read is its layout in pre-order; no text is refused for the arena that it would make. -/
theorem read_accepts_grammar (formula symbol : Text) :
    ((∃ tree, read formula symbol = .ok tree) ↔ ∃ phrase, IsFormula symbol formula phrase) ∧
      {phrase | IsFormula symbol formula phrase}.Subsingleton ∧
      (∀ tree, read formula symbol = .ok tree ↔
        ∃ phrase, IsFormula symbol formula phrase ∧ tree.symbol = symbol ∧
          tree.source = some formula ∧
            tree.nodes.toList = phrase.nodes (fun word => (Grammar.meaning symbol word).node) 0) ∧
      ∀ fault, read formula symbol ≠ .error (.notATree fault) := by
  refine ⟨⟨?_, ?_⟩, ?_, fun tree => read_iff, isTextFault_read formula symbol⟩
  · rintro ⟨tree, h⟩
    obtain ⟨phrase, hphrase, -⟩ := read_iff.1 h
    exact ⟨phrase, hphrase⟩
  · rintro ⟨phrase, hphrase⟩
    obtain ⟨tree, -, h⟩ := exists_ofNodes (readNodes_iff.2 ⟨phrase, hphrase, rfl⟩)
    exact ⟨tree, h⟩
  · intro first hfirst second hsecond
    exact isFormula_unique hfirst hsecond

end PrefixIntegral.Formula
