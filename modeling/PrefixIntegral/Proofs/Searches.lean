import PrefixIntegral.Proofs.Counts
import PrefixIntegral.Proofs.FreeSpacing

/-!
The searches of the reader for the parenthesis that closes a group. They go on to the end of the
text, whatever group they start in; once the parentheses have been checked, each of them ends at the
one parenthesis that matches, inside of the group that the reader is at.
-/

namespace PrefixIntegral

open Parentheses (Group close? close?_iff)

theorem Mark.getElem?_of_append {t : Text} {before after : List Mark} {m : Mark}
    (h : before ++ m :: after = ofText t) : t[m.place]? = some m.char := by
  have hm : (ofText t)[before.length]? = some m := by simp [← h]
  rw [ofText, getElem?_placed] at hm
  obtain ⟨c, hc, rfl⟩ := Option.map_eq_some_iff.1 hm
  rwa [Nat.zero_add]

namespace Text

/-- The places of a parenthesis and of the one that closes its group. -/
structure Pairs (t : Text) (first last : Nat) : Prop where
  before : first < last
  opens : t[first]? = some '('
  closes : t[last]? = some ')'
  balanced : Balanced (t.slice (first + 1) last)

theorem pairs_iff {t : Text} {first last : Nat} : t.Pairs first last ↔ t[first]? = some '(' ∧
    ∃ g, close? ((Mark.ofText t).drop (first + 1)) = some g ∧ g.closing.place = last := by
  constructor
  · rintro ⟨hlt, hopen, hclose, hbody⟩
    have hm : (Mark.ofText t)[last]? = some ⟨last, ')'⟩ := by
      rw [Mark.ofText, Mark.getElem?_placed, hclose, Option.map_some, Nat.zero_add]
    obtain ⟨hlast, hm⟩ := List.getElem?_eq_some_iff.1 hm
    refine ⟨hopen, ⟨((Mark.ofText t).take last).drop (first + 1), ⟨last, ')'⟩,
      (Mark.ofText t).drop (last + 1)⟩, close?_iff.2 ⟨?_, rfl, ?_⟩, rfl⟩
    · rw [← hm, ← List.drop_eq_getElem_cons,
        ← List.drop_append_of_le_length (by rw [List.length_take]; omega), List.take_append_drop]
    · rw [Mark.text, List.map_drop, List.map_take, ← Mark.text, Mark.text_ofText]
      exact hbody
  · rintro ⟨hopen, g, hg, rfl⟩
    obtain ⟨hfirst, -⟩ := List.getElem?_eq_some_iff.1 hopen
    obtain ⟨hrest, hclose, hbody⟩ := close?_iff.1 hg
    have hmarks : (Mark.ofText t).take (first + 1) ++ g.body ++ g.closing :: g.after =
        Mark.ofText t := by
      rw [List.append_assoc, ← hrest, List.take_append_drop]
    have hlength : ((Mark.ofText t).take (first + 1)).length = first + 1 := by
      rw [List.length_take_of_le (by rwa [Mark.ofText, Mark.length_placed])]
    have hplace := Mark.place_of_append hmarks
    have hslice := Mark.slice_segment hmarks
    rw [List.length_append, hlength] at hplace
    rw [hlength, ← hplace] at hslice
    refine ⟨by omega, hopen, ?_, by rwa [hslice]⟩
    rw [← hclose]
    exact Mark.getElem?_of_append hmarks

end Text

namespace Parentheses

theorem exists_close?_of_balanced {front after : List Mark} {opening : Mark}
    (hopen : opening.char = '(') (h : Text.Balanced (Mark.text (front ++ opening :: after))) :
    ∃ g, close? after = some g := by
  rw [Mark.text_append, Mark.text_cons, hopen, Text.Balanced, Text.depthAfter?_append] at h
  obtain ⟨depth, -, hrest⟩ := Option.bind_eq_some_iff.1 h
  rw [Text.depthAfter?, Text.nextDepth?, if_pos rfl, Option.bind_some] at hrest
  cases hclose : close? after with
  | some g => exact ⟨g, rfl⟩
  | none =>
      obtain ⟨left, hleft⟩ := closeFrom_eq_none_iff.1 hclose
      have hdeep := Text.depthAfter?_add hleft (depth + 1)
      rw [Nat.zero_add, hrest] at hdeep
      cases hdeep

/-- A search that ends within a part of a text ends there in the whole text as well, at the
parenthesis that pairs with the one it starts from. -/
theorem close?_of_part {t : Text} {before after beyond : List Mark} {opening : Mark} {g : Group}
    (hmarks : before ++ opening :: after ++ beyond = Mark.ofText t) (hopen : opening.char = '(')
    (hg : close? after = some g) :
    close? ((Mark.ofText t).drop (opening.place + 1)) = some { g with after := g.after ++ beyond } ∧
      ∀ last, t.Pairs opening.place last ↔ last = g.closing.place := by
  obtain ⟨hafter, hclose, hbody⟩ := close?_iff.1 hg
  have hplace : opening.place = before.length := by
    rw [List.append_assoc] at hmarks
    exact Mark.place_of_append hmarks
  have hdrop : (Mark.ofText t).drop (opening.place + 1) = after ++ beyond := by
    rw [← hmarks, hplace, List.append_assoc, ← List.drop_drop, List.drop_left]
    rfl
  have hwhole : close? ((Mark.ofText t).drop (opening.place + 1)) =
      some { g with after := g.after ++ beyond } := by
    rw [hdrop]
    exact close?_iff.2 ⟨by rw [hafter]; simp, hclose, hbody⟩
  have hchar : t[opening.place]? = some '(' := by
    rw [List.append_assoc] at hmarks
    rw [← hopen]
    exact Mark.getElem?_of_append hmarks
  refine ⟨hwhole, fun last => ?_⟩
  rw [Text.pairs_iff, and_iff_right hchar, hwhole]
  constructor
  · rintro ⟨_, ⟨⟩, rfl⟩
    rfl
  · rintro rfl
    exact ⟨_, rfl, rfl⟩

end Parentheses

namespace Operand

/-- The searches made while a segment is split: where each starts, and what it goes through. -/
inductive Searches (beyond : List Mark) : List Mark → Mark → List Mark → Prop
  | here {segment rest : List Mark} {m : Mark} : Mark.skipBlanks segment = m :: rest →
      m.char = '(' → Searches beyond segment m (rest ++ beyond)
  | afterGroup {segment rest more after : List Mark} {m next opening : Mark} {g : Group} :
      Mark.skipBlanks segment = m :: rest → m.char = '(' → close? (rest ++ beyond) = some g →
      rest.drop (g.body.length + 1) = next :: more → next.isBlank →
      Searches beyond more opening after → Searches beyond segment opening after
  | afterWord {segment rest more after : List Mark} {m next opening : Mark} :
      Mark.skipBlanks segment = m :: rest → m.char ≠ '(' →
      rest.dropWhile Mark.isInner = next :: more → next.char ≠ '(' →
      Searches beyond more opening after → Searches beyond segment opening after

variable {beyond segment after : List Mark} {opening : Mark}

theorem Searches.unclosed (h : Searches beyond segment opening after)
    (hnone : close? after = none) : split beyond segment = .error .unclosed := by
  induction h with
  | here hskip hopen =>
      rw [split_eq, hskip]
      simp only [if_pos hopen, hnone]
  | afterGroup hskip hopen hclose hnext hblank _ ih =>
      rw [split_eq, hskip]
      simp only [if_pos hopen, hclose, hnext, if_pos hblank, ih hnone]
      rfl
  | afterWord hskip hopen hnext hne _ ih =>
      rw [split_eq, hskip]
      simp only [if_neg hopen, hnext, if_neg hne, ih hnone]
      rfl

theorem suffix_of_skipBlanks {rest more : List Mark} {m next : Mark}
    (hskip : Mark.skipBlanks segment = m :: rest) (hmore : next :: more <:+ rest) :
    more <:+ segment :=
  calc
    more <:+ next :: more := List.suffix_cons next more
    _ <:+ rest := hmore
    _ <:+ m :: rest := List.suffix_cons m rest
    _ <:+ segment := hskip ▸ List.dropWhile_suffix _

theorem Searches.exists_append (h : Searches beyond segment opening after) :
    opening.char = '(' ∧ ∃ front, segment ++ beyond = front ++ opening :: after := by
  induction h with
  | here hskip hopen =>
      obtain ⟨-, gap, -, rfl⟩ := Mark.exists_of_skipBlanks hskip
      exact ⟨hopen, gap, by simp⟩
  | afterGroup hskip _ _ hnext _ _ ih =>
      obtain ⟨hopen, front, hmore⟩ := ih
      obtain ⟨before, rfl⟩ := suffix_of_skipBlanks hskip (hnext ▸ List.drop_suffix _ _)
      exact ⟨hopen, before ++ front, by rw [List.append_assoc, hmore, List.append_assoc]⟩
  | afterWord hskip _ hnext _ _ ih =>
      obtain ⟨hopen, front, hmore⟩ := ih
      obtain ⟨before, rfl⟩ := suffix_of_skipBlanks hskip (hnext ▸ List.dropWhile_suffix _)
      exact ⟨hopen, before ++ front, by rw [List.append_assoc, hmore, List.append_assoc]⟩

theorem Sequence.infix {o : Operand} {operands : List Operand} (h : Sequence segment operands)
    (ho : o ∈ operands) : o.marks <:+: segment := by
  induction h with
  | nil _ => cases ho
  | @cons gap rest first others _ _ _ _ ih =>
      obtain rfl | ho := List.mem_cons.1 ho
      · exact ⟨gap, rest, rfl⟩
      · exact (ih ho).trans (List.suffix_append _ _).isInfix

end Operand

namespace Formula

open Operand (Searches)

/-- A group that the reader is at, and the place of the arena that its first node takes. -/
structure Site where
  base : Nat
  opening : Mark
  body : List Mark
  closing : Mark

namespace Site

/-- The groups that the reader gets to from one: those of its operands before which nothing is
wrong, and what it gets to from these. -/
inductive Reaches (symbol : Text) : Site → Site → Prop
  | here {s : Site} : Reaches symbol s s
  | operand {s s' : Site} {head : Head} {front back : List Operand} {opening closing : Mark}
      {body : List Mark} {parts : List (List (Node Float))} :
      readHead s.opening.place s.body = .ok head →
      readOperands head = .ok (front ++ .group opening body closing :: back) →
      readEach symbol (s.base + 1) front = .ok parts →
      Reaches symbol ⟨s.base + 1 + parts.flatten.length, opening, body, closing⟩ s' →
      Reaches symbol s s'

/-- The searches made at one group, for the operator and for the operands. -/
inductive Searches (s : Site) : Mark → List Mark → Prop
  | operator {rest : List Mark} {m : Mark} : Mark.skipBlanks s.body = m :: rest → m.char = '(' →
      Searches s m rest
  | operands {head : Head} {opening : Mark} {after : List Mark} :
      readHead s.opening.place s.body = .ok head →
      Operand.Searches [] head.operands opening after → Searches s opening after

def read (symbol : Text) (s : Site) : Except FormulaFault (List (Node Float)) :=
  readGroup symbol s.base s.opening.place s.body

variable {symbol : Text} {s s' : Site} {opening : Mark} {after : List Mark}

theorem Searches.unclosed (h : s.Searches opening after) (hnone : close? after = none) :
    s.read symbol = .error .unclosed := by
  rw [read, readGroup_eq]
  cases h with
  | operator hskip hopen =>
      have hhead : readHead s.opening.place s.body = .error .unclosed := by
        rw [readHead, hskip]
        simp only [if_pos hopen, hnone]
      rw [hhead]
      rfl
  | operands hhead hsearch =>
      rw [bind_of_ok hhead, readOperands, hsearch.unclosed hnone]
      rfl

theorem readEach_append {base : Nat} {front rest : List Operand}
    {parts : List (List (Node Float))} (h : readEach symbol base front = .ok parts) :
    readEach symbol base (front ++ rest) =
      (readEach symbol (base + parts.flatten.length) rest).map (parts ++ ·) := by
  induction front generalizing base parts with
  | nil =>
      rw [readEach] at h
      cases h
      rw [List.nil_append, List.flatten_nil, List.length_nil, Nat.add_zero]
      cases readEach symbol base rest <;> rfl
  | cons o front ih =>
      rw [readEach_cons, bind_eq_ok_iff] at h
      obtain ⟨nodes, hnodes, hrest⟩ := h
      obtain ⟨others, hothers, rfl⟩ := map_eq_ok_iff.1 hrest
      rw [List.cons_append, readEach_cons, bind_of_ok hnodes, ih hothers, List.flatten_cons,
        List.length_append, Nat.add_assoc]
      cases readEach symbol (base + (nodes.length + others.flatten.length)) rest <;> rfl

theorem readEach_unclosed {base : Nat} {front : List Operand} {opening closing : Mark}
    {body : List Mark} {parts : List (List (Node Float))}
    (hfront : readEach symbol base front = .ok parts)
    (hgroup : read symbol ⟨base + parts.flatten.length, opening, body, closing⟩ =
      .error .unclosed) (back : List Operand) :
    readEach symbol base (front ++ .group opening body closing :: back) = .error .unclosed := by
  rw [readEach_append hfront, readEach_cons]
  rw [read] at hgroup
  rw [readOperand, hgroup]
  rfl

theorem Reaches.unclosed (h : Reaches symbol s s') (hread : s'.read symbol = .error .unclosed) :
    s.read symbol = .error .unclosed := by
  induction h with
  | here => exact hread
  | @operand s s' head front back opening closing body parts hhead hoperands hfront _ ih =>
      have heach := readEach_unclosed hfront (ih hread) back
      rw [read, readGroup_eq, bind_of_ok hhead, bind_of_ok hoperands, heach]
      rfl

def StandsIn (formula : Text) (s : Site) : Prop :=
  (Operand.group s.opening s.body s.closing).Sound ∧
    (Operand.group s.opening s.body s.closing).marks <:+: Mark.ofText formula

variable {formula : Text}

theorem Reaches.standsIn (h : Reaches symbol s s') (hs : s.StandsIn formula) :
    s'.StandsIn formula := by
  induction h with
  | here => exact hs
  | @operand s s' head front back opening closing body parts hhead hoperands _ _ ih =>
      obtain ⟨⟨-, -, hbody⟩, hmarks⟩ := hs
      obtain ⟨hsplit, -⟩ := readOperands_iff.1 hoperands
      have hmem : Operand.group opening body closing ∈
          front ++ .group opening body closing :: back := by simp
      have hsequence := Operand.sequence_of_split (balanced_of_readHead hhead hbody) hsplit
      obtain ⟨lead, word, -, -, -, hcut⟩ := readHead_iff.1 hhead
      refine ih ⟨(sound_of_readHead hhead hbody hsplit _ hmem).1, ?_⟩
      calc
        _ <:+: head.operands := hsequence.infix hmem
        _ <:+: s.body := ⟨lead ++ word, [], by rw [hcut, List.append_nil]⟩
        _ <:+: (Operand.group s.opening s.body s.closing).marks := ⟨[s.opening], [s.closing], rfl⟩
        _ <:+: Mark.ofText formula := hmarks

theorem Searches.exists_append (h : s.Searches opening after) :
    opening.char = '(' ∧ ∃ front, s.body = front ++ opening :: after := by
  cases h with
  | operator hskip hopen =>
      obtain ⟨-, gap, -, hbody⟩ := Mark.exists_of_skipBlanks hskip
      exact ⟨hopen, gap, hbody⟩
  | operands hhead hsearch =>
      obtain ⟨hopen, front, hoperands⟩ := hsearch.exists_append
      obtain ⟨lead, word, -, -, -, hcut⟩ := readHead_iff.1 hhead
      rw [List.append_nil] at hoperands
      exact ⟨hopen, lead ++ word ++ front, by rw [hcut, hoperands]; simp⟩

theorem Searches.exists_closing (h : s.Searches opening after) (hs : s.StandsIn formula) :
    ∃ g rest, close? after = some g ∧
      close? ((Mark.ofText formula).drop (opening.place + 1)) = some { g with after := rest } ∧
        (∀ last, formula.Pairs opening.place last ↔ last = g.closing.place) ∧
          g.closing.place < s.closing.place := by
  obtain ⟨⟨-, -, hbody⟩, before, behind, hstands⟩ := hs
  obtain ⟨hopening, front, hcut⟩ := h.exists_append
  rw [hcut] at hbody
  obtain ⟨g, hg⟩ := Parentheses.exists_close?_of_balanced hopening hbody
  have hpart : before ++ s.opening :: front ++ opening :: after ++ s.closing :: behind =
      Mark.ofText formula := by
    rw [← hstands, Operand.marks, hcut]
    simp
  obtain ⟨hwhole, hpairs⟩ := Parentheses.close?_of_part hpart hopening hg
  refine ⟨g, _, hg, hwhole, hpairs, ?_⟩
  have hclosing := Mark.place_of_append hpart
  obtain ⟨hafter, -, -⟩ := close?_iff.1 hg
  have hinner : before ++ s.opening :: front ++ opening :: g.body ++
      g.closing :: (g.after ++ s.closing :: behind) = Mark.ofText formula := by
    rw [← hpart, hafter]
    simp
  have hfound := Mark.place_of_append hinner
  rw [hafter] at hclosing
  simp only [List.length_append, List.length_cons] at hclosing hfound
  omega

end Site

/-- The searches made while a formula is read: for the group that it is, and at each group that the
reader gets to. A search starts within the group that the given parenthesis closes, or in none. -/
inductive Searches (formula symbol : Text) : Option Mark → Mark → List Mark → Prop
  | whole {m : Mark} {rest : List Mark} : Text.isAllBlank formula = false →
      Parentheses.check formula = .ok () → Mark.skipBlanks (Mark.ofText formula) = m :: rest →
      m.char = '(' → Searches formula symbol none m rest
  | within {m opening : Mark} {rest after : List Mark} {g : Group} {s : Site} :
      Text.isAllBlank formula = false → Parentheses.check formula = .ok () →
      Mark.skipBlanks (Mark.ofText formula) = m :: rest → m.char = '(' → close? rest = some g →
      Mark.skipBlanks g.after = [] → Site.Reaches symbol ⟨0, m, g.body, g.closing⟩ s →
      s.Searches opening after → Searches formula symbol (some s.closing) opening after

variable {formula symbol : Text}

theorem balanced_of_check (h : Parentheses.check formula = .ok ()) :
    Text.Balanced (Mark.text (Mark.ofText formula)) := by
  obtain ⟨pieces, houtline⟩ := exists_outline_of_check h
  exact houtline.balanced

theorem exists_closing_of_searches {enclosing : Option Mark} {opening : Mark} {after : List Mark}
    (h : Searches formula symbol enclosing opening after) :
    ∃ g rest, close? after = some g ∧
      close? ((Mark.ofText formula).drop (opening.place + 1)) = some { g with after := rest } ∧
        (∀ last, formula.Pairs opening.place last ↔ last = g.closing.place) ∧
          ∀ closing ∈ enclosing, g.closing.place < closing.place := by
  cases h with
  | whole _ hcheck hskip hopen =>
      obtain ⟨-, gap, -, hmarks⟩ := Mark.exists_of_skipBlanks hskip
      have hbalanced := balanced_of_check hcheck
      rw [hmarks] at hbalanced
      obtain ⟨g, hg⟩ := Parentheses.exists_close?_of_balanced hopen hbalanced
      rw [← List.append_nil (gap ++ _)] at hmarks
      obtain ⟨hwhole, hpairs⟩ := Parentheses.close?_of_part hmarks.symm hopen hg
      exact ⟨g, _, hg, hwhole, hpairs, by simp⟩
  | @within m _ rest _ outer s _ hcheck hskip hopen houter _ hreaches hsearch =>
      obtain ⟨-, gap, -, hmarks⟩ := Mark.exists_of_skipBlanks hskip
      obtain ⟨hrest, hclose, hbody⟩ := close?_iff.1 houter
      have hs : s.StandsIn formula := by
        refine hreaches.standsIn ⟨⟨hopen, hclose, hbody⟩, gap, outer.after, ?_⟩
        rw [hmarks, hrest]
        simp [Operand.marks]
      obtain ⟨g, after, hg, hwhole, hpairs, hlt⟩ := hsearch.exists_closing hs
      exact ⟨g, after, hg, hwhole, hpairs, by rintro _ ⟨⟩; exact hlt⟩

theorem fault_name_ne (finding : Finding) :
    (finding.fault formula).name ≠ "UnbalancedParenthesesError" := by
  cases finding with
  | outside reason => simp [Finding.fault, FormulaFault.name]
  | level opening flaw => cases flaw <;> simp [Finding.fault, Flaw.fault, FormulaFault.name]
  | leaf word => simp [Finding.fault, FormulaFault.name]

theorem read_eq_unbalanced_iff {fault : FormulaFault}
    (hfault : fault.name = "UnbalancedParenthesesError") :
    read formula symbol = .error fault ↔
      Text.isAllBlank formula = false ∧ Parentheses.check formula = .error fault := by
  refine ⟨fun hread => ?_, fun ⟨hblank, hcheck⟩ => read_of_check hblank hcheck⟩
  cases hblank : Text.isAllBlank formula with
  | true =>
      rw [read_of_blank hblank] at hread
      cases hread
      simp [FormulaFault.name] at hfault
  | false =>
      refine ⟨rfl, ?_⟩
      cases hcheck : Parentheses.check formula with
      | error found =>
          rw [read_of_check hblank hcheck] at hread
          rw [Except.error.inj hread]
      | ok _ =>
          obtain ⟨pieces, houtline⟩ := exists_outline_of_check hcheck
          obtain ⟨finding, -, rfl⟩ := (read_eq_error_iff_findings hblank hcheck houtline).1 hread
          exact absurd hfault (fault_name_ne finding)

/-- The check of the parentheses tells by their counts what it finds. The reader refuses a formula
for its parentheses just where the check does; after the check, each of its searches ends at the one
parenthesis that matches, which stands before the end of the group that the search is made in. -/
theorem check_and_searches (formula symbol : Text) :
    ((∀ i, Parentheses.check formula = .error (.extraClosing i) ↔
        IsLeast {i | formula.OverclosedAt i} i) ∧
      (Parentheses.check formula = .error .unclosed ↔ (¬∃ i, formula.OverclosedAt i) ∧
        (formula.count '(' ≠ formula.count ')' ∨ ('(' ∉ formula ∧ ')' ∉ formula))) ∧
      (Parentheses.check formula = .ok () ↔ (¬∃ i, formula.OverclosedAt i) ∧
        formula.count '(' = formula.count ')' ∧ ('(' ∈ formula ∨ ')' ∈ formula))) ∧
    (∀ fault : FormulaFault, fault.name = "UnbalancedParenthesesError" →
      (read formula symbol = .error fault ↔
        Text.isAllBlank formula = false ∧ Parentheses.check formula = .error fault)) ∧
    ∀ enclosing opening after, Searches formula symbol enclosing opening after →
      ∃ g rest, close? after = some g ∧
        close? ((Mark.ofText formula).drop (opening.place + 1)) = some { g with after := rest } ∧
          (∀ last, formula.Pairs opening.place last ↔ last = g.closing.place) ∧
            ∀ closing ∈ enclosing, g.closing.place < closing.place :=
  ⟨⟨fun _ => Parentheses.check_eq_extraClosing_iff, Parentheses.check_eq_unclosed_iff,
      Parentheses.check_eq_ok_iff⟩,
    fun _ hfault => read_eq_unbalanced_iff hfault, fun _ _ _ => exists_closing_of_searches⟩

example : ∃ closing after,
    Searches "(+ (x) y)".toList "x".toList (some closing) ⟨3, '('⟩ after :=
  ⟨_, _, .within rfl rfl rfl rfl rfl rfl .here (.operands rfl (.here rfl rfl))⟩

end Formula

end PrefixIntegral
