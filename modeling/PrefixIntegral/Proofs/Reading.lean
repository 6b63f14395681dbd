import PrefixIntegral.Proofs.Operands

namespace PrefixIntegral

open Grammar (IsWord IsToken IsGroup IsOperand IsOperands)
open Operand (EndsWord Sequence)

namespace Operator

theorem ofToken?_iff {word : Text} {op : Operator} : ofToken? word = some op ↔ word = op.token := by
  constructor
  · intro h
    have := List.find?_some h
    simpa [eq_comm] using this
  · rintro rfl
    exact ofToken?_token op

end Operator

namespace Operand

theorem exists_of_isGroup {symbol : Text} {marks : List Mark} {phrase : Phrase}
    (h : IsGroup symbol (Mark.text marks) phrase) :
    ∃ opening body closing, (group opening body closing).Sound ∧
      (group opening body closing).marks = marks := by
  generalize htext : Mark.text marks = text at h
  cases h with
  | intro hlead hinner htail _ =>
      obtain ⟨opening, after, rfl, hopen, hafter⟩ := Mark.text_eq_cons htext
      obtain ⟨body, last, rfl, hbody, hlast⟩ := Mark.text_eq_append hafter
      obtain ⟨closing, none, rfl, hclose, hnone⟩ := Mark.text_eq_cons hlast
      obtain rfl : none = [] := List.map_eq_nil_iff.1 hnone
      refine ⟨opening, body, closing, ⟨hopen, hclose, ?_⟩, rfl⟩
      rw [hbody]
      exact Grammar.balanced_body (fun _ _ _ htext => htext.balanced) hlead hinner htail

theorem size_le_totalSize {o : Operand} {operands : List Operand} (h : o ∈ operands) :
    o.size ≤ totalSize operands := by
  induction h with
  | head rest => exact Nat.le_add_right _ _
  | tail first _ ih => exact Nat.le_trans ih (Nat.le_add_left _ _)

theorem exists_of_isOperand {symbol : Text} {marks : List Mark} {phrase : Phrase}
    (h : IsOperand symbol (Mark.text marks) phrase) :
    ∃ o : Operand, o.Sound ∧ o.marks = marks := by
  generalize htext : Mark.text marks = text at h
  cases h with
  | token h =>
      cases marks with
      | nil => exact absurd htext.symm h.1.1
      | cons first inner => exact ⟨.word first inner, by rw [Sound, htext]; exact h.1, rfl⟩
  | group h =>
      rw [← htext] at h
      obtain ⟨opening, body, closing, ho, hmarks⟩ := exists_of_isGroup h
      exact ⟨.group opening body closing, ho, hmarks⟩

theorem Sound.not_isBlank_head {o : Operand} (h : o.Sound) :
    ∃ first rest, o.marks = first :: rest ∧ first.isBlank = false := by
  cases o with
  | word first inner => exact ⟨first, inner, rfl, (isInner_iff.1 (h.isInner first (by simp))).1⟩
  | group opening body closing =>
      refine ⟨opening, body ++ [closing], rfl, ?_⟩
      rw [Mark.isBlank, h.1]
      decide

def Derives (symbol : Text) (o : Operand) (phrase : Phrase) : Prop :=
  o.Sound ∧ IsOperand symbol o.text phrase

theorem Sequence.sound {segment : List Mark} {operands : List Operand}
    (h : Sequence segment operands) : ∀ o ∈ operands, o.Sound := by
  induction h with
  | nil _ => simp
  | cons _ ho _ _ ih => exact List.forall_mem_cons.2 ⟨ho, ih⟩

theorem sequence_of_isOperands {symbol : Text} {phrases : List Phrase} {inner tail : List Mark}
    (h : IsOperands symbol (Mark.text inner) phrases) (htail : ∀ m ∈ tail, m.isBlank) :
    EndsWord (inner ++ tail) ∧ ∃ operands, Sequence (inner ++ tail) operands ∧
      List.Forall₂ (Derives symbol) operands phrases := by
  induction phrases generalizing inner with
  | nil =>
      generalize htext : Mark.text inner = text at h
      cases h
      obtain rfl : inner = [] := List.map_eq_nil_iff.1 htext
      refine ⟨?_, [], .nil (by simpa using htail), .nil⟩
      rintro m rest rfl
      exact htail m (by simp)
  | cons phrase others ih =>
      generalize htext : Mark.text inner = text at h
      cases h with
      | cons hne hgap hoperand hrest =>
          obtain ⟨front, rest, rfl, hfront, rfl⟩ := Mark.text_eq_append htext
          obtain ⟨gap, marks, rfl, rfl, rfl⟩ := Mark.text_eq_append hfront
          obtain ⟨o, ho, rfl⟩ := exists_of_isOperand hoperand
          obtain ⟨hends, operands, hsequence, hderives⟩ := ih hrest
          have hblank := Mark.isAllBlank_text.1 hgap
          refine ⟨?_, o :: operands, ?_, .cons ⟨ho, hoperand⟩ hderives⟩
          · cases gap with
            | nil => exact absurd rfl hne
            | cons m gap => exact endsWord_cons (hblank m (by simp))
          · rw [List.append_assoc]
            exact .cons hblank ho hends hsequence

theorem isOperands_of_sequence {symbol : Text} {segment : List Mark} {operands : List Operand}
    (h : Sequence segment operands) (hends : EndsWord segment) {phrases : List Phrase}
    (hderives : List.Forall₂ (Derives symbol) operands phrases) :
    ∃ inner tail, Mark.text segment = inner ++ tail ∧ IsOperands symbol inner phrases ∧
      Text.isAllBlank tail := by
  induction h generalizing phrases with
  | @nil gap hgap =>
      cases hderives
      exact ⟨[], Mark.text gap, rfl, .nil, Mark.isAllBlank_text.2 hgap⟩
  | @cons gap rest o others hgap ho hrest _ ih =>
      cases hderives with
      | cons hfirst hothers =>
          obtain ⟨inner, tail, htext, hinner, htail⟩ := ih hrest hothers
          refine ⟨Mark.text gap ++ o.text ++ inner, tail, ?_, ?_, htail⟩
          · rw [Mark.text_append, Mark.text_append, htext, List.append_assoc, List.append_assoc,
              List.append_assoc]
            rfl
          · refine .cons ?_ (Mark.isAllBlank_text.2 hgap) hfirst.2 hinner
            intro hnil
            obtain rfl : gap = [] := List.map_eq_nil_iff.1 hnil
            obtain ⟨m, more, hmarks, hm⟩ := ho.not_isBlank_head
            rw [List.nil_append, hmarks] at hends
            rw [hends m _ rfl] at hm
            cases hm

end Operand

namespace Formula

theorem exists_of_readHead {opening : Nat} {body : List Mark} {head : Head}
    (h : readHead opening body = .ok head) : ∃ lead word, (∀ m ∈ lead, m.isBlank) ∧
      Mark.text word = head.operator.token ∧ EndsWord head.operands ∧
        body = lead ++ word ++ head.operands := by
  unfold readHead at h
  split at h
  · cases h
  · rename_i m rest hskip
    obtain ⟨-, lead, hlead, rfl⟩ := Mark.exists_of_skipBlanks hskip
    split at h
    · split at h <;> cases h
    · rename_i hopen
      dsimp only at h
      split at h
      · cases h
      · rename_i op hop
        have htoken := Operator.ofToken?_iff.1 hop
        have hcut := rest.takeWhile_append_dropWhile (p := Mark.isInner)
        split at h
        · rename_i hnil
          cases h
          refine ⟨lead, _, hlead, htoken, Operand.endsWord_nil, ?_⟩
          rw [← hnil, List.append_assoc, List.cons_append, hcut]
        · rename_i next more hnext
          split at h
          · cases h
          · rename_i hne
            cases h
            have hblank := Operand.isBlank_of_dropWhile hnext hne
            refine ⟨lead, _, hlead, htoken, Operand.endsWord_cons hblank, ?_⟩
            rw [← hnext, List.append_assoc, List.cons_append, hcut]

theorem readHead_append {opening : Nat} {lead word : List Mark} {head : Head}
    (hlead : ∀ m ∈ lead, m.isBlank) (htoken : Mark.text word = head.operator.token)
    (hends : EndsWord head.operands) :
    readHead opening (lead ++ word ++ head.operands) = .ok head := by
  obtain ⟨op, operands⟩ := head
  have hword : (Grammar.IsWord (Mark.text word)) := htoken ▸ Grammar.isWord_token op
  obtain ⟨m, inner, rfl⟩ := List.exists_cons_of_ne_nil (fun h => hword.1 (congrArg Mark.text h))
  have hsound : (Operand.word m inner).Sound := hword
  obtain ⟨hfirst, hinner⟩ := List.forall_mem_cons.1 hsound.isInner
  obtain ⟨hblank, hopen⟩ := Operand.isInner_iff.1 hfirst
  obtain ⟨htake, hdrop⟩ := Operand.takeWhile_isInner hinner hends.stopsWord
  have hskip : Mark.skipBlanks (lead ++ (m :: inner) ++ operands) =
      m :: (inner ++ operands) := by
    rw [List.append_assoc, Mark.skipBlanks_append hlead]
    exact Mark.skipBlanks_cons_of_not hblank
  simp only [readHead, hskip, if_neg hopen, htake, hdrop, Operator.ofToken?_iff.2 htoken]
  cases operands with
  | nil => rfl
  | cons next more =>
      have hnext := hends next more rfl
      simp only [if_neg (Grammar.ne_parenthesis_of_isBlank hnext).1]

theorem readHead_iff {opening : Nat} {body : List Mark} {head : Head} :
    readHead opening body = .ok head ↔ ∃ lead word, (∀ m ∈ lead, m.isBlank) ∧
      Mark.text word = head.operator.token ∧ EndsWord head.operands ∧
        body = lead ++ word ++ head.operands := by
  refine ⟨exists_of_readHead, ?_⟩
  rintro ⟨lead, word, hlead, htoken, hends, rfl⟩
  exact readHead_append hlead htoken hends

theorem balanced_of_readHead {opening : Nat} {body : List Mark} {head : Head}
    (hhead : readHead opening body = .ok head) (hbody : Text.Balanced (Mark.text body)) :
    Text.Balanced (Mark.text head.operands) := by
  obtain ⟨lead, word, hlead, hword, -, rfl⟩ := readHead_iff.1 hhead
  rw [Mark.text_append, Mark.text_append, hword] at hbody
  have hfront := (Grammar.balanced_of_isAllBlank (Mark.isAllBlank_text.2 hlead)).append
    (Grammar.isWord_token head.operator).balanced
  exact hfront.of_append hbody

theorem sound_of_readHead {opening : Nat} {body : List Mark} {head : Head}
    {operands : List Operand} (hhead : readHead opening body = .ok head)
    (hbody : Text.Balanced (Mark.text body))
    (hsplit : Operand.split [] head.operands = .ok operands) :
    ∀ o ∈ operands, o.Sound ∧ o.size ≤ body.length := by
  intro o ho
  have hsequence := Operand.sequence_of_split (balanced_of_readHead hhead hbody) hsplit
  have hall := Operand.totalSize_split_le hsplit
  have hle := length_readHead_le hhead
  have hone := Operand.size_le_totalSize ho
  exact ⟨hsequence.sound o ho, by omega⟩

/-- The grammar derives a group exactly if its head is read, its operands are split, and each of
these is derived. -/
theorem isOperand_group_iff {symbol : Text} {opening closing : Mark} {body : List Mark}
    {phrase : Phrase} (hgroup : (Operand.group opening body closing).Sound) (place : Nat) :
    IsOperand symbol (Operand.group opening body closing).text phrase ↔
      ∃ head operands phrases, readHead place body = .ok head ∧
        Operand.split [] head.operands = .ok operands ∧
          head.operator.arity.accepts operands.length ∧
            List.Forall₂ (Operand.Derives symbol) operands phrases ∧
              phrase = .apply head.operator phrases := by
  obtain ⟨hopen, hclose, hbody⟩ := hgroup
  have htext : (Operand.group opening body closing).text = '(' :: Mark.text body ++ [')'] := by
    simp [Operand.text, Operand.marks, hopen, hclose]
  rw [htext]
  constructor
  · intro h
    generalize hwhole : '(' :: Mark.text body ++ [')'] = text at h
    cases h with
    | token h =>
        refine absurd rfl (h.1.2 '(' ?_).2.1
        simp [← hwhole]
    | group h =>
        cases h with
        | intro hlead hinner htail haccepts =>
            have hcut := List.append_cancel_right (List.cons.inj hwhole).2
            obtain ⟨front, tail, rfl, hfront, rfl⟩ := Mark.text_eq_append hcut
            obtain ⟨start, inner, rfl, hstart, rfl⟩ := Mark.text_eq_append hfront
            obtain ⟨lead, word, rfl, rfl, hword⟩ := Mark.text_eq_append hstart
            obtain ⟨hends, operands, hsequence, hderives⟩ :=
              Operand.sequence_of_isOperands hinner (Mark.isAllBlank_text.1 htail)
            refine ⟨⟨_, inner ++ tail⟩, operands, _, ?_, Operand.split_of_sequence hsequence, ?_,
              hderives, rfl⟩
            · exact readHead_iff.2
                ⟨lead, word, Mark.isAllBlank_text.1 hlead, hword, hends, by simp⟩
            · rwa [hderives.length_eq]
  · rintro ⟨head, operands, phrases, hhead, hsplit, haccepts, hderives, rfl⟩
    have hbalanced := balanced_of_readHead hhead hbody
    obtain ⟨lead, word, hlead, hword, hends, rfl⟩ := readHead_iff.1 hhead
    obtain ⟨inner, tail, hoperands, hinner, htail⟩ := Operand.isOperands_of_sequence
      (Operand.sequence_of_split hbalanced hsplit) hends hderives
    rw [Mark.text_append, Mark.text_append, hword, hoperands, ← List.append_assoc]
    rw [hderives.length_eq] at haccepts
    exact .group (.intro (Mark.isAllBlank_text.2 hlead) hinner htail haccepts)

theorem isOperand_word_iff {symbol : Text} {first : Mark} {inner : List Mark} {phrase : Phrase}
    (hword : (Operand.word first inner).Sound) :
    IsOperand symbol (Operand.word first inner).text phrase ↔
      IsToken symbol (Operand.word first inner).text ∧
        phrase = .leaf (Operand.word first inner).text := by
  constructor
  · intro h
    generalize htext : (Operand.word first inner).text = text at h
    cases h with
    | token h => exact ⟨h, rfl⟩
    | group h =>
        cases h with
        | intro =>
            refine absurd rfl (hword.2 '(' ?_).2.1
            show '(' ∈ (Operand.word first inner).text
            simp [htext]
  · rintro ⟨h, rfl⟩
    exact .token h

theorem derives_unique {symbol : Text} {operands : List Operand} {first second : List Phrase}
    (h : ∀ phrase ∈ first, ∀ {o : Operand}, o.Sound → ∀ {other},
      IsOperand symbol o.text phrase → IsOperand symbol o.text other → phrase = other)
    (hfirst : List.Forall₂ (Operand.Derives symbol) operands first)
    (hsecond : List.Forall₂ (Operand.Derives symbol) operands second) : first = second := by
  induction hfirst generalizing second with
  | nil =>
      cases hsecond
      rfl
  | @cons o phrase operands first ho hothers ih =>
      cases hsecond with
      | cons hother hmore =>
          rw [h phrase (by simp) ho.1 ho.2 hother.2,
            ih (fun p hp => h p (by simp [hp])) hmore]

/-- No text is derived in two ways. -/
theorem isOperand_unique {symbol : Text} {o : Operand} (ho : o.Sound) {first second : Phrase}
    (hfirst : IsOperand symbol o.text first) (hsecond : IsOperand symbol o.text second) :
    first = second := by
  induction first using Term.induction generalizing o second with
  | leaf word =>
      cases o with
      | word m inner =>
          rw [((isOperand_word_iff ho).1 hfirst).2, ((isOperand_word_iff ho).1 hsecond).2]
      | group opening body closing =>
          obtain ⟨_, _, _, -, -, -, -, hphrase⟩ := (isOperand_group_iff ho 0).1 hfirst
          cases hphrase
  | apply op operands ih =>
      cases o with
      | word m inner =>
          cases ((isOperand_word_iff ho).1 hfirst).2
      | group opening body closing =>
          obtain ⟨head, found, phrases, hhead, hsplit, -, hderives, heq⟩ :=
            (isOperand_group_iff ho 0).1 hfirst
          obtain ⟨rfl, rfl⟩ := Term.apply.inj heq
          obtain ⟨head', found', others, hhead', hsplit', -, hderives', rfl⟩ :=
            (isOperand_group_iff ho 0).1 hsecond
          rw [hhead] at hhead'
          cases hhead'
          rw [hsplit] at hsplit'
          cases hsplit'
          rw [derives_unique (fun p hp _ ho _ => ih p hp ho) hderives hderives']

theorem readLeaf_iff {symbol word : Text} {node : Node Float} :
    readLeaf symbol word = .ok node ↔
      (word = symbol ∨ word = Literal.piToken ∨ word ∈ Literal.pattern) ∧
        node = (Grammar.meaning symbol word).node := by
  rw [← Literal.numeral?_isSome]
  unfold readLeaf Grammar.meaning Literal.read?
  split
  · rename_i hsymbol
    rw [Except.ok.injEq, and_iff_right (.inl hsymbol)]
    exact eq_comm
  · rename_i hsymbol
    split
    · rename_i hpi
      rw [Except.ok.injEq, and_iff_right (.inr (.inl hpi))]
      exact eq_comm
    · rename_i hpi
      cases Literal.numeral? word with
      | none => simp [hsymbol, hpi]
      | some numeral =>
          rw [and_iff_right (.inr (.inr rfl))]
          simp only [Option.map_some, Option.getD_some, Except.ok.injEq]
          exact eq_comm

def readOperand (symbol : Text) (base : Nat) : Operand → Except FormulaFault (List (Node Float))
  | .word first inner => (readLeaf symbol (Mark.text (first :: inner))).map ([·])
  | .group opening body _ => readGroup symbol base opening.place body

theorem readEach_cons (symbol : Text) (base : Nat) (o : Operand) (rest : List Operand) :
    readEach symbol base (o :: rest) = (readOperand symbol base o).bind fun nodes =>
      (readEach symbol (base + nodes.length) rest).map (nodes :: ·) := by
  rw [readEach]
  cases o with
  | word first inner =>
      simp only [readOperand]
      cases readLeaf symbol (Mark.text (first :: inner)) <;> rfl
  | group opening body closing =>
      simp only [readOperand]
      cases readGroup symbol base opening.place body <;> rfl

theorem readGroup_eq (symbol : Text) (base opening : Nat) (body : List Mark) :
    readGroup symbol base opening body = (readHead opening body).bind fun head =>
      (readOperands head).bind fun operands =>
        (readEach symbol (base + 1) operands).map fun parts =>
          .operator head.operator (places (base + 1) parts) :: parts.flatten := by
  rw [readGroup]
  split
  · rename_i hhead
    rw [hhead]
    rfl
  · rename_i head hhead
    rw [bind_of_ok hhead]
    split
    · rename_i hoperands
      rw [hoperands]
      rfl
    · rename_i operands hoperands
      rw [bind_of_ok hoperands]
      cases readEach symbol (base + 1) operands <;> rfl

theorem readOperands_iff {head : Head} {operands : List Operand} :
    readOperands head = .ok operands ↔
      Operand.split [] head.operands = .ok operands ∧
        head.operator.arity.accepts operands.length := by
  unfold readOperands
  cases Operand.split [] head.operands with
  | error fault => simp
  | ok found =>
      by_cases haccepts : head.operator.arity.accepts found.length
      · simp only [if_pos haccepts, Except.ok.injEq]
        exact ⟨fun h => ⟨h, h ▸ haccepts⟩, And.left⟩
      · simp only [if_neg haccepts, reduceCtorEq, Except.ok.injEq, false_iff]
        rintro ⟨rfl, h⟩
        exact haccepts h

theorem readGroup_iff {symbol : Text} {base opening : Nat} {body : List Mark}
    {nodes : List (Node Float)} :
    readGroup symbol base opening body = .ok nodes ↔
      ∃ head operands parts, readHead opening body = .ok head ∧
        Operand.split [] head.operands = .ok operands ∧
          head.operator.arity.accepts operands.length ∧
            readEach symbol (base + 1) operands = .ok parts ∧
              nodes = .operator head.operator (places (base + 1) parts) :: parts.flatten := by
  simp only [readGroup_eq, bind_eq_ok_iff, map_eq_ok_iff, readOperands_iff]
  constructor
  · rintro ⟨head, hhead, operands, ⟨hsplit, haccepts⟩, parts, hparts, rfl⟩
    exact ⟨head, operands, parts, hhead, hsplit, haccepts, hparts, rfl⟩
  · rintro ⟨head, operands, parts, hhead, hsplit, haccepts, hparts, rfl⟩
    exact ⟨head, hhead, operands, ⟨hsplit, haccepts⟩, parts, hparts, rfl⟩

def layouts {β : Type} (leafNode : β → Node Float) (base : Nat) :
    List (Term β) → List (List (Node Float))
  | [] => []
  | t :: rest => t.nodes leafNode base :: layouts leafNode (base + t.size) rest

theorem flatten_layouts {β : Type} (leafNode : β → Node Float) (base : Nat)
    (operands : List (Term β)) :
    (layouts leafNode base operands).flatten = Term.nodesOfAll leafNode base operands := by
  induction operands generalizing base with
  | nil => rfl
  | cons t rest ih => rw [layouts, List.flatten_cons, ih, Term.nodesOfAll]

theorem places_layouts {β : Type} (leafNode : β → Node Float) (base : Nat)
    (operands : List (Term β)) :
    places base (layouts leafNode base operands) = Term.starts base operands := by
  induction operands generalizing base with
  | nil => rfl
  | cons t rest ih => rw [layouts, places, Term.length_nodes, ih, Term.starts]

def wordNode (symbol word : Text) : Node Float := (Grammar.meaning symbol word).node

theorem readEach_iff {symbol : Text} {operands : List Operand}
    (h : ∀ o ∈ operands, ∀ {base nodes}, readOperand symbol base o = .ok nodes ↔
      ∃ phrase, IsOperand symbol o.text phrase ∧ nodes = phrase.nodes (wordNode symbol) base)
    (hsound : ∀ o ∈ operands, o.Sound) {base : Nat} {parts : List (List (Node Float))} :
    readEach symbol base operands = .ok parts ↔
      ∃ phrases, List.Forall₂ (Operand.Derives symbol) operands phrases ∧
        parts = layouts (wordNode symbol) base phrases := by
  induction operands generalizing base parts with
  | nil =>
      rw [readEach, Except.ok.injEq]
      constructor
      · rintro rfl
        exact ⟨[], .nil, rfl⟩
      · rintro ⟨phrases, hphrases, rfl⟩
        cases hphrases
        rfl
  | cons o rest ih =>
      have hrest := @ih (fun u hu => h u (by simp [hu])) (fun u hu => hsound u (by simp [hu]))
      simp only [readEach_cons, bind_eq_ok_iff, map_eq_ok_iff]
      constructor
      · rintro ⟨nodes, hnodes, others, hothers, rfl⟩
        obtain ⟨phrase, hphrase, rfl⟩ := (h o (by simp)).1 hnodes
        obtain ⟨phrases, hphrases, rfl⟩ := hrest.1 hothers
        refine ⟨phrase :: phrases, .cons ⟨hsound o (by simp), hphrase⟩ hphrases, ?_⟩
        rw [layouts, Term.length_nodes]
      · rintro ⟨phrases, hphrases, rfl⟩
        cases hphrases with
        | @cons _ phrase _ phrases hphrase hphrases =>
            refine ⟨_, (h o (by simp)).2 ⟨phrase, hphrase.2, rfl⟩, _,
              hrest.2 ⟨phrases, hphrases, rfl⟩, ?_⟩
            rw [Term.length_nodes, layouts]

/-- An operand is read exactly if the grammar derives it, into the layout of its phrase. -/
theorem readOperand_iff {symbol : Text} {o : Operand} (ho : o.Sound) {base : Nat}
    {nodes : List (Node Float)} :
    readOperand symbol base o = .ok nodes ↔
      ∃ phrase, IsOperand symbol o.text phrase ∧ nodes = phrase.nodes (wordNode symbol) base := by
  -- A group is read by reading operands that are smaller than it, each at a base of its own.
  induction hsize : o.size using Nat.strongRecOn generalizing o base nodes with
  | _ size ih =>
      cases o with
      | word first inner =>
          rw [readOperand, map_eq_ok_iff]
          constructor
          · rintro ⟨node, hnode, rfl⟩
            obtain ⟨htoken, rfl⟩ := readLeaf_iff.1 hnode
            exact ⟨_, (isOperand_word_iff ho).2 ⟨⟨ho, htoken⟩, rfl⟩, by rw [Term.nodes]; rfl⟩
          · rintro ⟨phrase, hphrase, rfl⟩
            obtain ⟨htoken, rfl⟩ := (isOperand_word_iff ho).1 hphrase
            exact ⟨_, readLeaf_iff.2 ⟨htoken.2, rfl⟩, by rw [Term.nodes]; rfl⟩
      | group opening body closing =>
          have hbody := ho.2.2
          have hlt : body.length < size := by
            rw [← hsize, Operand.size]
            omega
          have heach {head : Head} {operands : List Operand}
              (hhead : readHead opening.place body = .ok head)
              (hsplit : Operand.split [] head.operands = .ok operands)
              (parts : List (List (Node Float))) :
              readEach symbol (base + 1) operands = .ok parts ↔
                ∃ phrases, List.Forall₂ (Operand.Derives symbol) operands phrases ∧
                  parts = layouts (wordNode symbol) (base + 1) phrases := by
            have hsound := sound_of_readHead hhead hbody hsplit
            refine readEach_iff (fun u hu => ?_) fun u hu => (hsound u hu).1
            exact ih u.size (Nat.lt_of_le_of_lt (hsound u hu).2 hlt) (hsound u hu).1 rfl
          rw [readOperand, readGroup_iff]
          constructor
          · rintro ⟨head, operands, parts, hhead, hsplit, haccepts, hparts, rfl⟩
            obtain ⟨phrases, hphrases, rfl⟩ := (heach hhead hsplit parts).1 hparts
            refine ⟨_, (isOperand_group_iff ho opening.place).2
              ⟨head, operands, phrases, hhead, hsplit, haccepts, hphrases, rfl⟩, ?_⟩
            rw [flatten_layouts, places_layouts, Term.nodes]
          · rintro ⟨phrase, hphrase, rfl⟩
            obtain ⟨head, operands, phrases, hhead, hsplit, haccepts, hphrases, rfl⟩ :=
              (isOperand_group_iff ho opening.place).1 hphrase
            have hparts := (heach hhead hsplit _).2 ⟨phrases, hphrases, rfl⟩
            refine ⟨head, operands, _, hhead, hsplit, haccepts, hparts, ?_⟩
            rw [flatten_layouts, places_layouts, Term.nodes]

theorem isGroup_of_isOperand {symbol : Text} {opening closing : Mark} {body : List Mark}
    {phrase : Phrase} (ho : (Operand.group opening body closing).Sound)
    (h : IsOperand symbol (Operand.group opening body closing).text phrase) :
    IsGroup symbol (Operand.group opening body closing).text phrase := by
  obtain ⟨_, _, _, -, -, -, -, rfl⟩ := (isOperand_group_iff ho 0).1 h
  cases h with
  | group h => exact h

theorem check_of_balanced {formula : Text} (hmem : '(' ∈ formula) (h : Text.Balanced formula) :
    Parentheses.check formula = .ok () := by
  rw [Parentheses.check, if_neg (fun hnone => hnone.1 hmem), Parentheses.checkFrom_iff,
    Mark.text_ofText]
  exact h

end Formula

end PrefixIntegral
