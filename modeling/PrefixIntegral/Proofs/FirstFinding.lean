import PrefixIntegral.Proofs.Formulas
import PrefixIntegral.Proofs.Refilling

namespace PrefixIntegral

namespace Formula

open Operand (Shows ShowsIn)
open Piece (formulaFindings)

variable {formula symbol : Text} {pieces : List Piece}

/-- A formula is refused for the first thing that is wrong with it, and read as what its group says
if nothing is. -/
theorem settles_readNodes (hblank : Text.isAllBlank formula = false)
    (hcheck : Parentheses.check formula = .ok ())
    (houtline : Outline true (Mark.ofText formula) pieces) :
    Settles formula (formulaFindings symbol pieces) (pieces.head?.bind Piece.phrase?)
      (·.nodes (wordNode symbol) 0) (readNodes formula symbol) := by
  unfold readNodes
  rw [if_neg (by simp [hblank]), hcheck]
  generalize hmarks : Mark.ofText formula = marks at houtline
  cases houtline with
  | nil hgap =>
      rw [← hmarks, ← Mark.isAllBlank_text, Mark.text_ofText, hblank] at hgap
      cases hgap
  | @word _ gap rest after first others hgap hword hstops hothers =>
      obtain ⟨hfirst, hopen⟩ := Operand.isInner_iff.1 (Operand.Sound.isInner hword first (by simp))
      simp only [Operand.skipBlanks_gap hgap hfirst, if_pos hopen, formulaFindings]
      refine ⟨?_, by rintro ⟨⟩⟩
      rintro _ ⟨⟩
      rfl
  | @group _ gap body after opening closing inside others hgap hopen hclose hbody hothers =>
      have hgroup : Parentheses.close? (body ++ closing :: after) = some ⟨body, closing, after⟩ :=
        Parentheses.close?_iff.2 ⟨rfl, hclose, hbody.balanced⟩
      simp only [Operand.skipBlanks_gap hgap (Operand.isBlank_opening hopen), ne_eq, hopen,
        not_true_eq_false, if_false, hgroup, formulaFindings]
      cases others with
      | cons p more =>
          obtain ⟨gap', m, rest, hgap', hm, rfl, hstart, -⟩ := hothers.exists_head
          simp only [Operand.skipBlanks_gap hgap' hm, ← hstart]
          refine ⟨?_, by rintro ⟨⟩⟩
          rintro _ ⟨⟩
          rfl
      | nil =>
          have hskip : Mark.skipBlanks after = [] :=
            List.dropWhile_eq_nil_iff.2 hothers.all_isBlank
          have hshows : ShowsIn (Mark.ofText formula) (.group opening body closing)
              (.group (true || !gap.isEmpty) opening inside closing) :=
            ⟨.group hbody, gap, after, by simp [Operand.marks, hmarks]⟩
          simp only [hskip, List.map_nil, List.nil_append]
          exact settles_readOperand hshows 0

theorem read_eq_error_iff {fault : FormulaFault} :
    read formula symbol = .error fault ↔ readNodes formula symbol = .error fault := by
  cases hnodes : readNodes formula symbol with
  | error found => simp only [read, hnodes]; simp
  | ok nodes =>
      obtain ⟨tree, -, hread⟩ := exists_ofNodes hnodes
      rw [hread]
      exact iff_of_false (by rintro ⟨⟩) (by rintro ⟨_, ⟨⟩, _⟩)

theorem read_eq_error_iff_findings (hblank : Text.isAllBlank formula = false)
    (hcheck : Parentheses.check formula = .ok ())
    (houtline : Outline true (Mark.ofText formula) pieces) {fault : FormulaFault} :
    read formula symbol = .error fault ↔ ∃ finding,
      (formulaFindings symbol pieces).head? = some finding ∧ finding.fault formula = fault := by
  obtain ⟨hfaulty, hsaid⟩ := @settles_readNodes formula symbol pieces hblank hcheck houtline
  rw [read_eq_error_iff]
  cases hfindings : formulaFindings symbol pieces with
  | nil =>
      obtain ⟨phrase, -, hread⟩ := hsaid hfindings
      rw [hread]
      exact iff_of_false (by rintro ⟨⟩) (by rintro ⟨_, ⟨⟩, _⟩)
  | cons finding more =>
      rw [hfaulty finding (by rw [hfindings]; rfl)]
      simp

end Formula

namespace Mark

theorem map_move_placed {shift : Nat → Nat} {start start' : Nat} (t : Text)
    (h : ∀ k < t.length, shift (start + k) = start' + k) :
    (placed start t).map (move shift) = placed start' t := by
  induction t generalizing start start' with
  | nil => rfl
  | cons c rest ih =>
      have hfirst : shift start = start' := h 0 (by simp)
      have hrest : (placed (start + 1) rest).map (move shift) = placed (start' + 1) rest := by
        refine ih fun k hk => ?_
        have := h (k + 1) (by simpa using hk)
        rw [Nat.add_assoc, Nat.add_comm 1 k, this]
        omega
      rw [placed, List.map_cons, hrest, placed, move, hfirst]

theorem place_of_append {t : Text} {before after : List Mark} {m : Mark}
    (h : before ++ m :: after = ofText t) : m.place = before.length := by
  have hmid : before ++ [m] ++ after = ofText t := by rwa [List.append_assoc]
  have hplaced := eq_placed_of_append hmid
  rw [text_cons, placed] at hplaced
  exact congrArg place (List.cons.inj hplaced).1

end Mark

theorem exists_outline_placed {t : Text} (h : Text.Balanced t) (start : Nat) (edge : Bool) :
    ∃ pieces, Outline edge (Mark.placed start t) pieces := by
  rw [← Mark.text_placed start t] at h
  exact exists_outline h edge

theorem exists_outline_of_check {formula : Text} (hcheck : Parentheses.check formula = .ok ()) :
    ∃ pieces, Outline true (Mark.ofText formula) pieces := by
  refine exists_outline ?_ true
  unfold Parentheses.check at hcheck
  split at hcheck
  · cases hcheck
  · exact Parentheses.checkFrom_iff.1 hcheck

theorem Piece.exists_of_groupForOperator {pieces : List Piece} {first last : Nat}
    (h : .groupForOperator first last ∈ levelFlaws pieces) :
    ∃ apart opening inside closing others, pieces = .group apart opening inside closing :: others ∧
      opening.place = first ∧ closing.place = last := by
  cases pieces with
  | nil => simp [levelFlaws] at h
  | cons operator operands =>
      rw [levelFlaws, List.append_assoc, List.mem_append, List.mem_append] at h
      obtain hoperator | hseparator | hcount := h
      · cases operator with
        | word apart first rest =>
            rw [operatorFlaws] at hoperator
            split at hoperator <;> simp at hoperator
        | group apart opening inside closing =>
            obtain ⟨rfl, rfl⟩ : first = opening.place ∧ last = closing.place := by
              simpa [operatorFlaws] using hoperator
            exact ⟨apart, opening, inside, closing, operands, rfl, rfl, rfl⟩
      · simp [separatorFlaws] at hseparator
      · cases operator with
        | group => simp [countFlaws] at hcount
        | word apart first rest =>
            rw [countFlaws] at hcount
            split at hcount
            · cases hcount
            · split at hcount <;> simp at hcount

/-- A formula with a group left open that is an operand of another group of it. `lead` and `tail`
stand around the outer group; in it, `front` stands before the inner one, with the operator, and
`back` behind it. -/
structure Nest where
  lead : Text
  front : Text
  back : Text
  tail : Text
  notBlank_front : Text.isAllBlank front = false
  balanced_front : Text.Balanced front
  balanced_back : Text.Balanced back

namespace Nest

open Piece (levelFlaws formulaFindings)

def body (n : Nest) (inside : Text) : Text := n.front ++ '(' :: (inside ++ ')' :: n.back)

def fill (n : Nest) (inside : Text) : Text := n.lead ++ '(' :: (n.body inside ++ ')' :: n.tail)

def opening (n : Nest) : Nat := n.lead.length

def inner (n : Nest) : Nat := n.lead.length + 1 + n.front.length

/-- The place that a place has after the inner group has been filled otherwise: behind the filling
it moves by the change of length. -/
def shift (n : Nest) (inside other : Text) (place : Nat) : Nat :=
  if place ≤ n.inner then place else place + other.length - inside.length

theorem placed_body (n : Nest) (inside : Text) :
    Mark.placed (n.opening + 1) (n.body inside) =
      Mark.placed (n.opening + 1) n.front ++ ⟨n.inner, '('⟩ ::
        (Mark.placed (n.inner + 1) inside ++ ⟨n.inner + 1 + inside.length, ')'⟩ ::
          Mark.placed (n.inner + 2 + inside.length) n.back) := by
  have hinner : n.opening + 1 + n.front.length = n.inner := rfl
  have hback : n.inner + 1 + inside.length + 1 = n.inner + 2 + inside.length := by omega
  rw [body, Mark.placed_append, Mark.placed, Mark.placed_append, Mark.placed, hinner, hback]

theorem ofText_fill (n : Nest) (inside : Text) :
    Mark.ofText (n.fill inside) = Mark.placed 0 n.lead ++ ⟨n.opening, '('⟩ ::
      (Mark.placed (n.opening + 1) (n.body inside) ++
        ⟨n.opening + 1 + (n.body inside).length, ')'⟩ ::
          Mark.placed (n.opening + 2 + (n.body inside).length) n.tail) := by
  have hopening : 0 + n.lead.length = n.opening := Nat.zero_add _
  have htail : n.opening + 1 + (n.body inside).length + 1 =
      n.opening + 2 + (n.body inside).length := by omega
  rw [Mark.ofText, fill, Mark.placed_append, Mark.placed, Mark.placed_append, Mark.placed, hopening,
    htail]

theorem length_body (n : Nest) (inside : Text) :
    (n.body inside).length = n.front.length + inside.length + n.back.length + 2 := by
  simp only [body, List.length_append, List.length_cons]
  omega

theorem balanced_body (n : Nest) {inside : Text} (hinside : Text.Balanced inside) :
    Text.Balanced (n.body inside) := by
  have hgroup := n.balanced_front.append (hinside.group.append n.balanced_back)
  simpa [body] using hgroup

variable (n : Nest) (inside other : Text)

theorem shift_before {place : Nat} (h : place ≤ n.inner) : n.shift inside other place = place :=
  if_pos h

theorem shift_behind {place : Nat} (h : n.inner + 1 + inside.length ≤ place) :
    n.shift inside other place = place + other.length - inside.length :=
  if_neg (by omega)

theorem map_move_front : (Mark.placed (n.opening + 1) n.front).map
    (Mark.move (n.shift inside other)) = Mark.placed (n.opening + 1) n.front := by
  have hinner : n.inner = n.opening + 1 + n.front.length := rfl
  refine Mark.map_move_placed _ fun k hk => ?_
  exact n.shift_before inside other (by omega)

theorem map_move_back : (Mark.placed (n.inner + 2 + inside.length) n.back).map
    (Mark.move (n.shift inside other)) = Mark.placed (n.inner + 2 + other.length) n.back := by
  refine Mark.map_move_placed _ fun k _ => ?_
  rw [n.shift_behind inside other (by omega)]
  omega

theorem ofText_fill_other : Mark.ofText (n.fill other) =
    Mark.placed 0 n.lead ++ ⟨n.opening, '('⟩ :: (Mark.placed (n.opening + 1) (n.body other) ++
      (⟨n.opening + 1 + (n.body inside).length, ')'⟩ : Mark).move (n.shift inside other) ::
        (Mark.placed (n.opening + 2 + (n.body inside).length) n.tail).map
          (Mark.move (n.shift inside other))) := by
  have hinner : n.inner = n.opening + 1 + n.front.length := rfl
  have hbody := n.length_body inside
  have hother := n.length_body other
  have hclosing : n.shift inside other (n.opening + 1 + (n.body inside).length) =
      n.opening + 1 + (n.body other).length := by
    rw [n.shift_behind inside other (by omega)]
    omega
  have htail : (Mark.placed (n.opening + 2 + (n.body inside).length) n.tail).map
      (Mark.move (n.shift inside other)) =
        Mark.placed (n.opening + 2 + (n.body other).length) n.tail := by
    refine Mark.map_move_placed _ fun k _ => ?_
    rw [n.shift_behind inside other (by omega)]
    omega
  rw [n.ofText_fill, htail, Mark.move, hclosing]

theorem mem_fill : '(' ∈ n.fill inside := by
  simp [fill]

theorem infix_of_front :
    Mark.placed (n.opening + 1) n.front <:+: Mark.ofText (n.fill inside) := by
  rw [n.ofText_fill, n.placed_body]
  exact ⟨Mark.placed 0 n.lead ++ [⟨n.opening, '('⟩],
    ⟨n.inner, '('⟩ :: (Mark.placed (n.inner + 1) inside ++ ⟨n.inner + 1 + inside.length, ')'⟩ ::
      (Mark.placed (n.inner + 2 + inside.length) n.back ++
        ⟨n.opening + 1 + (n.body inside).length, ')'⟩ ::
          Mark.placed (n.opening + 2 + (n.body inside).length) n.tail)), by simp⟩

/-- Whether a group that may stand in the place of the operator is at the same places, and the
same, when the inner group is filled otherwise. -/
def KeepsQuoted (first last : Nat) : Prop :=
  n.shift inside other first = first ∧ n.shift inside other last = last ∧
    Text.between (n.fill other) first last = Text.between (n.fill inside) first last

theorem keepsQuoted_of_front {apart : Bool} {first last : Mark} {more pieces : List Piece}
    (hfront : Outline true (Mark.placed (n.opening + 1) n.front)
      (.group apart first more last :: pieces)) :
    n.KeepsQuoted inside other first.place last.place := by
  have hfixed := hfront.move (n.shift inside other)
  rw [n.map_move_front] at hfixed
  obtain ⟨hoperator, -⟩ := List.cons.inj (hfixed.unique hfront)
  rw [Piece.move, Piece.group.injEq] at hoperator
  obtain ⟨-, hfirst, -, hlast⟩ := hoperator
  obtain ⟨-, -, quoted, hquoted⟩ := hfront.exists_quoted
  refine ⟨congrArg Mark.place hfirst, congrArg Mark.place hlast, ?_⟩
  rw [Mark.between_eq (hquoted.trans (n.infix_of_front other)),
    Mark.between_eq (hquoted.trans (n.infix_of_front inside))]

/-- The outer group has the same flaws, moved, when the inner one is filled otherwise. A group that
stands in the place of its operator is not moved, for it stands before. -/
theorem exists_outline_other (hinside : Text.Balanced inside) (hother : Text.Balanced other)
    {within : List Piece}
    (h : Outline true (Mark.placed (n.opening + 1) (n.body inside)) within) :
    ∃ within', Outline true (Mark.placed (n.opening + 1) (n.body other)) within' ∧
      levelFlaws within' = (levelFlaws within).map (Flaw.move (n.shift inside other)) ∧
        ∀ {first last}, .groupForOperator first last ∈ levelFlaws within →
          n.KeepsQuoted inside other first last := by
  obtain ⟨pieces, hfront⟩ := exists_outline_placed n.balanced_front (n.opening + 1) true
  obtain ⟨inner, hinner⟩ := exists_outline_placed hinside (n.inner + 1) true
  obtain ⟨inner', hinner'⟩ := exists_outline_placed hother (n.inner + 1) true
  obtain ⟨behind, hback⟩ :=
    exists_outline_placed n.balanced_back (n.inner + 2 + inside.length) false
  cases pieces with
  | nil =>
      have hblank := Mark.isAllBlank_text.2 hfront.all_isBlank
      rw [Mark.text_placed, n.notBlank_front] at hblank
      cases hblank
  | cons operator before =>
      have hfixed := hfront.move (n.shift inside other)
      rw [n.map_move_front] at hfixed
      have hsame := hfixed.unique hfront
      have hback' := hback.move (n.shift inside other)
      rw [n.map_move_back] at hback'
      obtain ⟨apart, hgroup⟩ := hfront.exists_append_group
      have hwithin := @hgroup ⟨n.inner, '('⟩ ⟨n.inner + 1 + inside.length, ')'⟩ _ _ _ _ rfl rfl
        hinner hback
      have hwithin' := @hgroup ⟨n.inner, '('⟩ ⟨n.inner + 1 + other.length, ')'⟩ _ _ _ _ rfl rfl
        hinner' hback'
      rw [← n.placed_body] at hwithin hwithin'
      obtain rfl := h.unique hwithin
      refine ⟨_, hwithin', ?_, ?_⟩
      · have hopening : (⟨n.inner, '('⟩ : Mark).move (n.shift inside other) = ⟨n.inner, '('⟩ :=
          congrArg (Mark.mk · '(') (n.shift_before inside other (Nat.le_refl _))
        rw [← Piece.levelFlaws_move, List.map_append, hsame, List.map_cons, Piece.move, hopening]
        exact Piece.levelFlaws_inside operator before _ _ _ _ _ _ _
      · intro first last hmem
        obtain ⟨flag, opening, more, closing, others, heq, rfl, rfl⟩ :=
          Piece.exists_of_groupForOperator hmem
        obtain ⟨rfl, -⟩ := List.cons.inj heq
        exact n.keepsQuoted_of_front inside other hfront

theorem fault_fill_other {flaw : Flaw} (hquoted : ∀ {first last},
      flaw = .groupForOperator first last → n.KeepsQuoted inside other first last) :
    (flaw.move (n.shift inside other)).fault (n.fill other) n.opening =
      (flaw.fault (n.fill inside) n.opening).move (n.shift inside other) := by
  have hopening : n.shift inside other n.opening = n.opening := by
    refine n.shift_before inside other ?_
    have hinner : n.inner = n.opening + 1 + n.front.length := rfl
    omega
  cases flaw with
  | groupForOperator first last =>
      obtain ⟨hfirst, hlast, hsame⟩ := hquoted rfl
      rw [Flaw.move, Flaw.fault, Flaw.fault, hfirst, hlast, hsame]
      rfl
  | empty =>
      rw [Flaw.move, Flaw.fault, Flaw.fault, FormulaFault.move, Malformation.move, hopening]
  | noSeparator place => rfl
  | unknownOperator word => rfl
  | operandCount op actual => rfl

variable {n inside other}

theorem cut_fill (hinside : Text.Balanced inside) {before body after : List Mark}
    {met closing : Mark}
    (hmarks : Mark.ofText (n.fill inside) = before ++ met :: (body ++ closing :: after))
    (hplace : met.place = n.opening) (hclose : closing.char = ')')
    (hbody : Text.Balanced (Mark.text body)) :
    before = Mark.placed 0 n.lead ∧ met = ⟨n.opening, '('⟩ ∧
      body = Mark.placed (n.opening + 1) (n.body inside) ∧
        closing = ⟨n.opening + 1 + (n.body inside).length, ')'⟩ ∧
          after = Mark.placed (n.opening + 2 + (n.body inside).length) n.tail := by
  have hlength : before.length = (Mark.placed 0 n.lead).length := by
    rw [Mark.length_placed, ← Mark.place_of_append hmarks.symm, hplace]
    rfl
  rw [n.ofText_fill] at hmarks
  obtain ⟨hbefore, hrest⟩ := List.append_inj hmarks.symm hlength
  obtain ⟨hmet, hrest⟩ := List.cons.inj hrest
  have hbalanced : Text.Balanced (Mark.text (Mark.placed (n.opening + 1) (n.body inside))) := by
    rw [Mark.text_placed]
    exact n.balanced_body hinside
  obtain ⟨hbody, hclosing, hafter⟩ :=
    Parentheses.close_unique hclose rfl hbody hbalanced hrest
  exact ⟨hbefore, hmet, hbody, hclosing, hafter⟩

/-- What is found first at the level of the outer group is found there, moved, when the inner one is
filled otherwise. -/
theorem read_fill_other {symbol : Text} {pieces : List Piece} {flaw : Flaw}
    (hinside : Text.Balanced inside) (hother : Text.Balanced other)
    (houtline : Outline true (Mark.ofText (n.fill inside)) pieces)
    (hhead : (formulaFindings symbol pieces).head? = some (.level n.opening flaw)) :
    Formula.read (n.fill other) symbol =
      .error ((flaw.fault (n.fill inside) n.opening).move (n.shift inside other)) := by
  obtain ⟨⟨met, within, hmeets, hplace, hflaw⟩, hone⟩ := Piece.meetsFlaw_of_formulaFindings hhead
  obtain ⟨before, body, closing, after, hmarks, -, hclose, hbody, hrefill⟩ :=
    houtline.refill hmeets
  obtain ⟨rfl, rfl, rfl, rfl, rfl⟩ := cut_fill hinside hmarks hplace hclose hbody.balanced
  obtain ⟨within', hbody', hlevel, hquoted⟩ :=
    n.exists_outline_other inside other hinside hother hbody
  obtain ⟨pieces', hmeets', houtline', happart⟩ := hrefill (n.shift inside other) hbody'
  rw [← n.ofText_fill_other] at houtline'
  have hone' : pieces'.length = 1 := by
    rw [← hone, ← List.length_map Piece.apart, happart, List.length_map]
  have hhead' : (formulaFindings symbol pieces').head? =
      some (.level n.opening (flaw.move (n.shift inside other))) := by
    rw [hmeets'.formulaFindings_eq hone']
    refine hmeets'.head?_findingsOfAll ?_
    rw [hlevel, List.head?_map, hflaw]
    rfl
  have hblank : Text.isAllBlank (n.fill other) = false := by
    refine Bool.eq_false_iff.2 fun hall => ?_
    exact absurd (List.all_eq_true.1 hall '(' (n.mem_fill other)) (by decide)
  have hbalanced := houtline'.balanced
  rw [Mark.text_ofText] at hbalanced
  have hcheck := Formula.check_of_balanced (n.mem_fill other) hbalanced
  refine (Formula.read_eq_error_iff_findings hblank hcheck houtline').2 ⟨_, hhead', ?_⟩
  refine n.fault_fill_other inside other fun hgroup => hquoted ?_
  rw [← hgroup]
  exact List.mem_of_mem_head? hflaw

end Nest

/-- A formula whose parentheses match has one outline, and is refused for the first thing found
wrong on a walk through it: for text beside its group; for a flaw of a group, its operator before
its separators and these before the number of its operands; or for a word, from left to right, that
is no operand. What is refused for a flaw of a group is refused for the same with an operand of the
group filled by any other balanced text, deep inside of the operand or in whole: only the places
behind the operand move. -/
theorem Formula.read_first_finding {formula : Text} (symbol : Text)
    (hblank : Text.isAllBlank formula = false) (hcheck : Parentheses.check formula = .ok ()) :
    ∃ pieces, Outline true (Mark.ofText formula) pieces ∧
      (∀ others, Outline true (Mark.ofText formula) others → others = pieces) ∧
      (∀ fault, Formula.read formula symbol = .error fault ↔ ∃ finding,
        (Piece.formulaFindings symbol pieces).head? = some finding ∧
          finding.fault formula = fault) ∧
      ∀ (n : Nest) (inside other : Text) (flaw : Flaw), formula = n.fill inside →
        Text.Balanced inside → Text.Balanced other →
          (Piece.formulaFindings symbol pieces).head? = some (.level n.opening flaw) →
            Formula.read (n.fill other) symbol =
              .error ((flaw.fault formula n.opening).move (n.shift inside other)) := by
  obtain ⟨pieces, houtline⟩ := exists_outline_of_check hcheck
  refine ⟨pieces, houtline, fun others hothers => hothers.unique houtline,
    fun fault => Formula.read_eq_error_iff_findings hblank hcheck houtline, ?_⟩
  rintro n inside other flaw rfl hinside hother hhead
  exact Nest.read_fill_other hinside hother houtline hhead

def Nest.unseparated : Nest where
  lead := []
  front := ['+', ' ']
  back := ['2']
  tail := []
  notBlank_front := rfl
  balanced_front := rfl
  balanced_back := rfl

/-- The sum is refused for the separator before it is for its empty operand, and with another
operand it is refused for the separator as well, six characters further. -/
theorem Formula.read_unseparated :
    Formula.read (Nest.unseparated.fill []) ['x'] = .error (.missingSeparator 5) ∧
      Formula.read (Nest.unseparated.fill ['/', ' ', 'x', ' ', '0', '.']) ['x'] =
        .error (.missingSeparator 11) := by
  obtain ⟨pieces, -, hunique, hread, hfilled⟩ :=
    @Formula.read_first_finding (Nest.unseparated.fill []) ['x'] (by decide) (by decide)
  have hsecond : Outline false [⟨5, '2'⟩] [.word false ⟨5, '2'⟩ []] :=
    @Outline.word false [] [] [] _ _ (by simp) (.of_all (by decide) (by decide))
      (by simp [Operand.StopsWord]) (.nil (by simp))
  have hfirst : Outline false [⟨2, ' '⟩, ⟨3, '('⟩, ⟨4, ')'⟩, ⟨5, '2'⟩]
      [.group true ⟨3, '('⟩ [] ⟨4, ')'⟩, .word false ⟨5, '2'⟩ []] :=
    @Outline.group false [⟨2, ' '⟩] [] _ _ _ _ _ (by decide) rfl rfl (.nil (by simp)) hsecond
  have hoperator : Outline true (⟨1, '+'⟩ :: _) (.word true ⟨1, '+'⟩ [] :: _) :=
    @Outline.word true [] [] _ _ _ (by simp) (.of_all (by decide) (by decide))
      (by simp [Operand.StopsWord]; decide) hfirst
  have hgroup : Outline true (Mark.ofText (Nest.unseparated.fill [])) _ :=
    @Outline.group true [] _ [] ⟨0, '('⟩ ⟨6, ')'⟩ _ _ (by simp) rfl rfl hoperator (.nil (by simp))
  have hhead : (Piece.formulaFindings ['x'] pieces).head? = some (.level 0 (.noSeparator 5)) := by
    rw [← hunique _ hgroup]
    rfl
  refine ⟨(hread _).2 ⟨_, hhead, rfl⟩, ?_⟩
  exact hfilled Nest.unseparated [] ['/', ' ', 'x', ' ', '0', '.'] (.noSeparator 5) rfl rfl rfl
    hhead

end PrefixIntegral
