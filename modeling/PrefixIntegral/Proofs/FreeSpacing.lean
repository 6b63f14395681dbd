import PrefixIntegral.Proofs.FirstFinding
import PrefixIntegral.Proofs.Respacing

namespace PrefixIntegral

open Text (Respaced SamePlace)

/-- The same fault in another spacing of a text. Places are those of the same character, and a
group that is quoted for want of an operator is quoted in its other spacing. -/
inductive SameFault (t t' : Text) : FormulaFault → FormulaFault → Prop
  | unclosed : SameFault t t' .unclosed .unclosed
  | extraClosing {place place' : Nat} : SamePlace t t' place place' →
      SameFault t t' (.extraClosing place) (.extraClosing place')
  | unknownWord (word : Text) : SameFault t t' (.unknownOperator word) (.unknownOperator word)
  | unknownGroup {body body' : Text} : Respaced body body' →
      SameFault t t' (.unknownOperator ('(' :: (body ++ [')'])))
        (.unknownOperator ('(' :: (body' ++ [')'])))
  | operandCount (op : Operator) (actual : Nat) :
      SameFault t t' (.operandCount op actual) (.operandCount op actual)
  | missingSeparator {place place' : Nat} : SamePlace t t' place place' →
      SameFault t t' (.missingSeparator place) (.missingSeparator place')
  | invalidLiteral (word : Text) : SameFault t t' (.invalidLiteral word) (.invalidLiteral word)
  | undefined : SameFault t t' (.malformed .undefined) (.malformed .undefined)
  | empty : SameFault t t' (.malformed .empty) (.malformed .empty)
  | noGroup {place place' : Nat} : SamePlace t t' place place' →
      SameFault t t' (.malformed (.noGroup place)) (.malformed (.noGroup place'))
  | trailing {place place' : Nat} : SamePlace t t' place place' →
      SameFault t t' (.malformed (.trailing place)) (.malformed (.trailing place'))
  | emptyGroup {place place' : Nat} : SamePlace t t' place place' →
      SameFault t t' (.malformed (.emptyGroup place)) (.malformed (.emptyGroup place'))

/-- Two spacings of a text are read as trees with the same nodes, or refused for the same fault. -/
inductive SameOutcome (t t' : Text) :
    Except FormulaFault (Tree Float) → Except FormulaFault (Tree Float) → Prop
  | tree {tree tree' : Tree Float} : tree.nodes = tree'.nodes → tree.symbol = tree'.symbol →
      SameOutcome t t' (.ok tree) (.ok tree')
  | fault {fault fault' : FormulaFault} : SameFault t t' fault fault' →
      SameOutcome t t' (.error fault) (.error fault')

variable {t t' : Text} {shift : Nat → Nat} {place : Nat} {pieces : List Piece} {symbol : Text}

theorem Text.mem_inked_of_fixed
    (h : ∀ shift : Nat → Nat, (∀ p ∈ t.inked, shift p = p) → shift place = place) :
    place ∈ t.inked := by
  by_contra hplace
  have hfixed := h (fun p => if p = place then p + 1 else p) fun p hp => if_neg (by
    rintro rfl
    exact hplace hp)
  simp at hfixed

namespace Mark

theorem inks_of_fixed (h : ∀ p ∈ t.inked, shift p = p) :
    (inks true (ofText t)).map (Ink.move shift) = inks true (ofText t) := by
  refine (List.map_congr_left fun i hi => ?_).trans (List.map_id _)
  have hplace : i.mark.place ∈ t.inked := by
    rw [← map_place_inks]
    exact List.mem_map_of_mem hi
  rw [Ink.move, move, h _ hplace]
  rfl

theorem text_filter (t : Text) :
    text ((ofText t).filter (!·.isBlank)) = t.filter (!Text.isBlank ·) := by
  have hfilter := List.filter_map (f := char) (p := (!Text.isBlank ·)) (l := ofText t)
  rw [← text, text_ofText] at hfilter
  exact hfilter.symm

theorem exists_inks_append {apart : Bool} {m : Mark} (hm : m.isBlank = false)
    (before after : List Mark) : ∃ flag, inks apart (before ++ m :: after) =
      inks apart before ++ ⟨m, flag⟩ :: inks (m.char == '(') after := by
  induction before generalizing apart with
  | nil => exact ⟨_, inks_of_not_isBlank hm⟩
  | cons b rest ih =>
      rw [List.cons_append, inks, inks]
      cases b.isBlank with
      | true => exact ih
      | false =>
          obtain ⟨flag, hflag⟩ := @ih (b.char == '(')
          exact ⟨flag, congrArg (_ :: ·) hflag⟩

theorem exists_between {opening closing : Mark} {body : List Mark}
    (hmove : inks true (ofText t') = (inks true (ofText t)).map (Ink.move shift))
    (hopen : opening.char = '(') (hclose : closing.char = ')')
    (hquoted : opening :: (body ++ [closing]) <:+: ofText t) : ∃ body', Respaced (text body) body' ∧
      Text.between t' (shift opening.place) (shift closing.place) = '(' :: (body' ++ [')']) := by
  obtain ⟨before, after, heq⟩ := hquoted
  have hmarks : before ++ opening :: (body ++ closing :: after) = ofText t := by
    rw [← heq]
    simp
  have hblank := Operand.isBlank_opening hopen
  obtain ⟨flag, hinks⟩ := @exists_inks_append true opening hblank before (body ++ closing :: after)
  rw [← hmarks, hinks, hopen, inks_append_closing hclose, List.map_append, List.map_cons,
    List.map_append, List.map_cons] at hmove
  obtain ⟨before', rest', hmarks', -, hrest⟩ := exists_of_inks_append hmove
  have hopen' : (opening.move shift).char = '(' := hopen
  dsimp only [Ink.move] at hmarks' hrest
  rw [hopen'] at hrest
  obtain ⟨body', after', rfl, hbody, -⟩ := exists_of_inks_append hrest.symm
  have hquoted' : opening.move shift :: (body' ++ [closing.move shift]) <:+: ofText t' :=
    ⟨before', after', by rw [hmarks']; simp⟩
  refine ⟨text body', ?_, ?_⟩
  · have hbody : inks true body' = (inks true body).map (Ink.move shift) := hbody
    rw [Text.respaced_iff, ← map_sign_inks, ← map_sign_inks, hbody, List.map_map]
    rfl
  · have htext := between_eq hquoted'
    rwa [text_cons, text_append, text_cons, text_nil, char_move, char_move, hopen, hclose] at htext

end Mark

namespace Parentheses

theorem checkFrom_filter (depth : Nat) (marks : List Mark) :
    checkFrom depth (marks.filter (!·.isBlank)) = checkFrom depth marks := by
  induction marks generalizing depth with
  | nil => rfl
  | cons m rest ih =>
      rw [List.filter_cons, checkFrom_cons]
      cases hm : m.isBlank with
      | true =>
          obtain ⟨hopen, hclose⟩ := Grammar.ne_parenthesis_of_isBlank hm
          rw [Text.nextDepth?, if_neg hopen, if_neg hclose]
          exact ih depth
      | false =>
          rw [if_pos (by rfl), checkFrom_cons]
          cases Text.nextDepth? depth m.char with
          | none => rfl
          | some next => exact ih next

theorem checkFrom_map_move (shift : Nat → Nat) (depth : Nat) (marks : List Mark) :
    checkFrom depth (marks.map (Mark.move shift)) =
      (checkFrom depth marks).mapError (FormulaFault.move shift) := by
  induction marks generalizing depth with
  | nil =>
      rw [List.map_nil, checkFrom]
      split <;> rfl
  | cons m rest ih =>
      rw [List.map_cons, checkFrom_cons, checkFrom_cons, Mark.char_move]
      cases Text.nextDepth? depth m.char with
      | none => rfl
      | some next => exact ih next

theorem exists_of_checkFrom_error {depth : Nat} {marks : List Mark} {fault : FormulaFault}
    (h : checkFrom depth marks = .error fault) :
    fault = .unclosed ∨ ∃ m ∈ marks, fault = .extraClosing m.place := by
  induction marks generalizing depth with
  | nil =>
      rw [checkFrom] at h
      split at h
      · cases h
      · cases h
        exact .inl rfl
  | cons m rest ih =>
      rw [checkFrom_cons] at h
      cases hnext : Text.nextDepth? depth m.char with
      | none =>
          rw [hnext] at h
          cases h
          exact .inr ⟨m, by simp, rfl⟩
      | some next =>
          rw [hnext] at h
          refine (ih h).imp_right ?_
          rintro ⟨m', hm', rfl⟩
          exact ⟨m', List.mem_cons_of_mem _ hm', rfl⟩

end Parentheses

namespace Parentheses

theorem check_respaced
    (hmove : Mark.inks true (Mark.ofText t') =
      (Mark.inks true (Mark.ofText t)).map (Ink.move shift)) :
    check t' = (check t).mapError (FormulaFault.move shift) := by
  have hmarks : (Mark.ofText t').filter (!·.isBlank) =
      ((Mark.ofText t).filter (!·.isBlank)).map (Mark.move shift) := by
    rw [← Mark.map_mark_inks true, ← Mark.map_mark_inks true, hmove, List.map_map, List.map_map]
    rfl
  have hmem (c : Char) (hc : Text.isBlank c = false) : c ∈ t' ↔ c ∈ t := by
    have hchars (t : Text) : c ∈ t ↔ c ∈ Mark.text ((Mark.ofText t).filter (!·.isBlank)) := by
      simp [Mark.text_filter, hc]
    rw [hchars t', hchars t, hmarks, Mark.text_map_move]
  simp only [check, hmem '(' (by decide), hmem ')' (by decide)]
  split
  · rfl
  · rw [← checkFrom_filter, hmarks, checkFrom_map_move, checkFrom_filter]

theorem sameFault {fault : FormulaFault}
    (hmove : Mark.inks true (Mark.ofText t') =
      (Mark.inks true (Mark.ofText t)).map (Ink.move shift))
    (h : check t = .error fault) : SameFault t t' fault (fault.move shift) := by
  rw [check] at h
  split at h
  · cases h
    exact .unclosed
  · rw [← checkFrom_filter] at h
    obtain rfl | ⟨m, hm, rfl⟩ := exists_of_checkFrom_error h
    · exact .unclosed
    · exact .extraClosing (Text.samePlace_of_mem hmove (List.mem_map_of_mem hm))

end Parentheses

namespace Outline

theorem move_eq_self (h : Outline true (Mark.ofText t) pieces) {finding : Finding}
    (hhead : (Piece.formulaFindings symbol pieces).head? = some finding)
    (hfixed : ∀ p ∈ t.inked, shift p = p) : finding.move shift = finding := by
  have hsame := (h.respace (Mark.inks_of_fixed hfixed).symm).unique h
  have hfindings := congrArg List.head? (Piece.formulaFindings_move shift symbol pieces)
  rw [hsame, List.head?_map, hhead] at hfindings
  exact (Option.some.inj hfindings).symm

theorem exists_of_groupForOperator (h : Outline true (Mark.ofText t) pieces)
    {place first last : Nat} (hhead : (Piece.formulaFindings symbol pieces).head? =
      some (.level place (.groupForOperator first last))) :
    ∃ opening closing body, opening.place = first ∧ closing.place = last ∧ opening.char = '(' ∧
      closing.char = ')' ∧ opening :: (body ++ [closing]) <:+: Mark.ofText t := by
  obtain ⟨⟨met, within, hmeets, -, hflaw⟩, -⟩ := Piece.meetsFlaw_of_formulaFindings hhead
  obtain ⟨before, inner, stop, after, hmarks, -, -, hinner, -⟩ := h.refill hmeets
  obtain ⟨apart, opening, inside, closing, others, rfl, rfl, rfl⟩ :=
    Piece.exists_of_groupForOperator (List.mem_of_mem_head? hflaw)
  obtain ⟨hopen, hclose, body, hquoted⟩ := hinner.exists_quoted
  refine ⟨opening, closing, body, rfl, rfl, hopen, hclose, hquoted.trans ?_⟩
  exact ⟨before ++ [met], stop :: after, by rw [hmarks]; simp⟩

theorem sameFault (h : Outline true (Mark.ofText t) pieces) {finding : Finding}
    (hmove : Mark.inks true (Mark.ofText t') =
      (Mark.inks true (Mark.ofText t)).map (Ink.move shift))
    (hhead : (Piece.formulaFindings symbol pieces).head? = some finding) :
    SameFault t t' (finding.fault t) ((finding.move shift).fault t') := by
  have hplace {place : Nat} (hfix : ∀ shift : Nat → Nat, finding.move shift = finding →
      shift place = place) : SamePlace t t' place (shift place) := by
    refine Text.samePlace_of_mem hmove (Text.mem_inked_of_fixed fun other hother => ?_)
    exact hfix other (h.move_eq_self hhead hother)
  cases finding with
  | leaf word => exact .invalidLiteral word
  | outside reason =>
      cases reason with
      | undefined => exact .undefined
      | empty => exact .empty
      | noGroup place =>
          exact .noGroup (hplace fun _ hsame =>
            Malformation.noGroup.inj (Finding.outside.inj hsame))
      | trailing place =>
          exact .trailing (hplace fun _ hsame =>
            Malformation.trailing.inj (Finding.outside.inj hsame))
      | emptyGroup place =>
          exact .emptyGroup (hplace fun _ hsame =>
            Malformation.emptyGroup.inj (Finding.outside.inj hsame))
  | level opening flaw =>
      cases flaw with
      | empty => exact .emptyGroup (hplace fun _ hsame => (Finding.level.inj hsame).1)
      | groupForOperator first last =>
          obtain ⟨first, last, body, rfl, rfl, hopen, hclose, hquoted⟩ :=
            h.exists_of_groupForOperator hhead
          obtain ⟨body', hbody, hbetween⟩ := Mark.exists_between hmove hopen hclose hquoted
          rw [Finding.move, Flaw.move, Finding.fault, Finding.fault, Flaw.fault, Flaw.fault,
            hbetween, Mark.between_eq hquoted, Mark.text_cons, Mark.text_append, Mark.text_cons,
            Mark.text_nil, hopen, hclose]
          exact .unknownGroup hbody
      | unknownOperator word => exact .unknownWord word
      | noSeparator place =>
          exact .missingSeparator (hplace fun _ hsame =>
            Flaw.noSeparator.inj (Finding.level.inj hsame).2)
      | operandCount op actual => exact .operandCount op actual

end Outline

namespace Formula

open Piece (formulaFindings)

theorem read_of_check {fault : FormulaFault} (hblank : Text.isAllBlank t = false)
    (hcheck : Parentheses.check t = .error fault) : read t symbol = .error fault := by
  rw [read_eq_error_iff, readNodes, if_neg (by simp [hblank]), hcheck]

theorem read_of_blank (h : Text.isAllBlank t) : read t symbol = .error (.malformed .empty) := by
  rw [read_eq_error_iff, readNodes, if_pos h]

theorem exists_read_of_nodes {nodes : List (Node Float)} (h : readNodes t symbol = .ok nodes) :
    ∃ tree, read t symbol = .ok tree ∧ tree.nodes = nodes.toArray ∧ tree.symbol = symbol := by
  obtain ⟨tree, htree, hread⟩ := exists_ofNodes h
  obtain ⟨hnodes, hsymbol, -⟩ := ofNodes_iff.1 htree
  exact ⟨tree, hread, hnodes, hsymbol⟩

theorem sameOutcome_of_phrase (hblank : Text.isAllBlank t = false)
    (hblank' : Text.isAllBlank t' = false) (hcheck : Parentheses.check t = .ok ())
    (hcheck' : Parentheses.check t' = .ok ()) (houtline : Outline true (Mark.ofText t) pieces)
    (houtline' : Outline true (Mark.ofText t') (pieces.map (Piece.move shift)))
    (hfindings : formulaFindings symbol pieces = []) :
    SameOutcome t t' (read t symbol) (read t' symbol) := by
  have hfindings' : formulaFindings symbol (pieces.map (Piece.move shift)) = [] := by
    rw [Piece.formulaFindings_move, hfindings, List.map_nil]
  have hsame : (pieces.map (Piece.move shift)).head?.bind Piece.phrase? =
      pieces.head?.bind Piece.phrase? := by
    rw [List.head?_map, Option.bind_map]
    exact congrArg _ (funext fun p => p.phrase?_move shift)
  obtain ⟨phrase, hphrase, hnodes⟩ :=
    (@settles_readNodes t symbol pieces hblank hcheck houtline).2 hfindings
  obtain ⟨phrase', hphrase', hnodes'⟩ :=
    (@settles_readNodes t' symbol _ hblank' hcheck' houtline').2 hfindings'
  rw [hsame, hphrase, Option.some.injEq] at hphrase'
  subst hphrase'
  obtain ⟨tree, hread, htree, hsymbol⟩ := exists_read_of_nodes hnodes
  obtain ⟨tree', hread', htree', hsymbol'⟩ := exists_read_of_nodes hnodes'
  rw [hread, hread']
  exact .tree (htree.trans htree'.symm) (hsymbol.trans hsymbol'.symm)

/-- A formula that is read in one spacing is read in every other, as a tree with the same nodes, and
one that is refused is refused for the same fault. -/
theorem read_respaced (symbol : Text) (h : Respaced t t') :
    SameOutcome t t' (read t symbol) (read t' symbol) := by
  obtain ⟨shift, hmove⟩ := h.exists_move
  have hchecks := Parentheses.check_respaced hmove
  have hblanks := h.isAllBlank_eq
  cases hblank : Text.isAllBlank t with
  | true =>
      rw [read_of_blank hblank, read_of_blank (hblanks.trans hblank)]
      exact .fault .empty
  | false =>
      rw [hblank] at hblanks
      cases hcheck : Parentheses.check t with
      | error fault =>
          rw [hcheck] at hchecks
          rw [read_of_check hblank hcheck, read_of_check hblanks hchecks]
          exact .fault (Parentheses.sameFault hmove hcheck)
      | ok =>
          rw [hcheck] at hchecks
          obtain ⟨pieces, houtline⟩ := exists_outline_of_check hcheck
          have houtline' := houtline.respace hmove
          cases hfindings : formulaFindings symbol pieces with
          | nil =>
              exact sameOutcome_of_phrase hblank hblanks hcheck hchecks houtline houtline' hfindings
          | cons finding more =>
              have hhead : (formulaFindings symbol pieces).head? = some finding := by
                rw [hfindings]
                rfl
              have hhead' : (formulaFindings symbol (pieces.map (Piece.move shift))).head? =
                  some (finding.move shift) := by
                rw [Piece.formulaFindings_move, List.head?_map, hhead]
                rfl
              rw [(read_eq_error_iff_findings hblank hcheck houtline).2 ⟨_, hhead, rfl⟩,
                (read_eq_error_iff_findings hblanks hchecks houtline').2 ⟨_, hhead', rfl⟩]
              exact .fault (houtline.sameFault hmove hhead)

/-- A group closed twice, and the same spread out: both are refused for the second of the closing
parentheses. -/
theorem read_spread_out :
    Respaced ['(', 'x', ')', ')'] [' ', '(', '\t', 'x', ' ', ')', '\n', ')'] ∧
      SameOutcome ['(', 'x', ')', ')'] [' ', '(', '\t', 'x', ' ', ')', '\n', ')']
        (.error (.extraClosing 3)) (read [' ', '(', '\t', 'x', ' ', ')', '\n', ')'] ['x']) := by
  have hrespaced : Respaced ['(', 'x', ')', ')'] [' ', '(', '\t', 'x', ' ', ')', '\n', ')'] :=
    Text.respaced_iff.2 (by decide)
  have hread : read ['(', 'x', ')', ')'] ['x'] = .error (.extraClosing 3) :=
    read_of_check (by decide) (by decide)
  have houtcome := read_respaced ['x'] hrespaced
  rw [hread] at houtcome
  exact ⟨hrespaced, houtcome⟩

end Formula

end PrefixIntegral
