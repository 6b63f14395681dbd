import PrefixIntegral.Proofs.Outline
import PrefixIntegral.Proofs.Reading

/-!
What is wrong with a formula. A walk through its outline, each group before its operands, finds the
flaws of the groups and the words that are no operands. The reader stops at the first that the walk
finds; where it finds none, the outline says a phrase, and its layout is what is read.
-/

namespace PrefixIntegral

open Operand (EndsWord Sequence StopsWord)

/-- The characters of a text from one place to another, those at both places among them. -/
def Text.between (t : Text) (first last : Nat) : Text := (t.drop first).take (last + 1 - first)

/-- What may be wrong with a group at its own level, the groups inside of it left closed. -/
inductive Flaw where
  | empty
  | groupForOperator (opening closing : Nat)
  | unknownOperator (word : Text)
  | noSeparator (place : Nat)
  | operandCount (op : Operator) (actual : Nat)
  deriving DecidableEq, Repr

/-- What may be wrong with a formula: text beside its group, a flaw of the group that opens at a
place, or a word that is no operand. -/
inductive Finding where
  | outside (reason : Malformation)
  | level (opening : Nat) (flaw : Flaw)
  | leaf (word : Text)
  deriving DecidableEq, Repr

/-- The fault of a group of a formula with the flaw. A group in the place of an operator is
quoted. -/
def Flaw.fault (formula : Text) (opening : Nat) : Flaw → FormulaFault
  | empty => .malformed (.emptyGroup opening)
  | groupForOperator first last => .unknownOperator (Text.between formula first last)
  | unknownOperator word => .unknownOperator word
  | noSeparator place => .missingSeparator place
  | operandCount op actual => .operandCount op actual

def Finding.fault (formula : Text) : Finding → FormulaFault
  | outside reason => .malformed reason
  | level opening flaw => flaw.fault formula opening
  | leaf word => .invalidLiteral word

namespace Piece

def operatorFlaws : Piece → List Flaw
  | word _ first rest =>
    match Operator.ofToken? (Mark.text (first :: rest)) with
    | none => [.unknownOperator (Mark.text (first :: rest))]
    | some _ => []
  | group _ opening _ closing => [.groupForOperator opening.place closing.place]

/-- The places at which a separator is missing, from the one after the operator on. -/
def separatorFlaws (operands : List Piece) : List Flaw :=
  (operands.filter (!·.apart)).map fun operand => .noSeparator operand.start

def countFlaws (operands : List Piece) : Piece → List Flaw
  | word _ first rest =>
    match Operator.ofToken? (Mark.text (first :: rest)) with
    | none => []
    | some op =>
      if op.arity.accepts operands.length then [] else [.operandCount op operands.length]
  | group .. => []

/-- The flaws of a group with the given pieces inside, in the order in which they are looked for. -/
def levelFlaws : List Piece → List Flaw
  | [] => [.empty]
  | operator :: operands =>
    operator.operatorFlaws ++ separatorFlaws operands ++ operator.countFlaws operands

def leafFindings (symbol word : Text) : List Finding :=
  if word = symbol ∨ word = Literal.piToken ∨ (Literal.numeral? word).isSome then []
  else [.leaf word]

mutual

/-- Everything that is wrong with an operand: the flaws of a group before what is wrong with its
operands. -/
def findings (symbol : Text) : Piece → List Finding
  | word _ first rest => leafFindings symbol (Mark.text (first :: rest))
  | group _ opening [] _ => (levelFlaws []).map (.level opening.place)
  | group _ opening (operator :: operands) _ =>
    (levelFlaws (operator :: operands)).map (.level opening.place) ++
      findingsOfAll symbol operands

def findingsOfAll (symbol : Text) : List Piece → List Finding
  | [] => []
  | operand :: rest => operand.findings symbol ++ findingsOfAll symbol rest

end

mutual

def phrase? : Piece → Option Phrase
  | word _ first rest => some (.leaf (Mark.text (first :: rest)))
  | group _ _ (word _ first rest :: operands) _ =>
    (Operator.ofToken? (Mark.text (first :: rest))).bind fun op =>
      (phrases? operands).map (.apply op)
  | group .. => none

def phrases? : List Piece → Option (List Phrase)
  | [] => some []
  | operand :: rest => operand.phrase?.bind fun phrase => (phrases? rest).map (phrase :: ·)

end

/-- Everything that is wrong with a formula of the given pieces, what stands beside its group
first. -/
def formulaFindings (symbol : Text) : List Piece → List Finding
  | [] => []
  | word _ first _ :: _ => [.outside (.noGroup first.place)]
  | group apart opening inside closing :: rest =>
    rest.map (fun piece => .outside (.trailing piece.start)) ++
      (group apart opening inside closing).findings symbol

theorem findings_group (symbol : Text) (apart : Bool) (opening closing : Mark)
    (inside : List Piece) : (group apart opening inside closing).findings symbol =
      (levelFlaws inside).map (.level opening.place) ++ findingsOfAll symbol inside.tail := by
  cases inside with
  | nil => simp [findings, findingsOfAll]
  | cons operator operands => rw [findings, List.tail_cons]

theorem head?_separatorFlaws (operands : List Piece) : (separatorFlaws operands).head? =
    (operands.find? (!·.apart)).map fun operand => .noSeparator operand.start := by
  rw [separatorFlaws, List.head?_map, List.head?_filter]

end Piece

namespace Mark

theorem placed_append (start : Nat) (first second : Text) :
    placed start (first ++ second) =
      placed start first ++ placed (start + first.length) second := by
  induction first generalizing start with
  | nil => rfl
  | cons c rest ih =>
      rw [List.cons_append, placed, ih, placed, List.length_cons, List.cons_append,
        Nat.add_right_comm, Nat.add_assoc]

theorem length_placed (start : Nat) (t : Text) : (placed start t).length = t.length := by
  rw [← length_text, text_placed]

theorem map_place_placed (start : Nat) (t : Text) :
    (placed start t).map place = List.range' start t.length := by
  induction t generalizing start with
  | nil => rfl
  | cons c rest ih => rw [placed, List.map_cons, ih, List.length_cons, List.range'_succ]

theorem eq_placed_of_append {t : Text} {before marks after : List Mark}
    (h : before ++ marks ++ after = ofText t) : marks = placed before.length (text marks) := by
  have htext := congrArg text h
  rw [text_ofText, text_append, text_append] at htext
  rw [← htext, ofText, placed_append, placed_append] at h
  have hfront := (List.append_inj h (by simp [length_placed])).1
  have hmarks := (List.append_inj hfront (by simp [length_placed])).2
  rwa [Nat.zero_add, length_text] at hmarks

theorem between_eq {t : Text} {opening closing : Mark} {body : List Mark}
    (h : opening :: (body ++ [closing]) <:+: ofText t) :
    Text.between t opening.place closing.place = text (opening :: (body ++ [closing])) := by
  obtain ⟨before, after, heq⟩ := h
  have hplaced := eq_placed_of_append heq
  rw [text_cons, text_append, placed, placed_append, text_cons, placed, List.cons.injEq] at hplaced
  obtain ⟨hopening, hrest⟩ := hplaced
  obtain ⟨-, hclosing⟩ := List.append_inj' hrest rfl
  have hfirst : opening.place = before.length := congrArg Mark.place hopening
  have hlast : closing.place = before.length + 1 + body.length := by
    have := congrArg Mark.place (List.cons.inj hclosing).1
    rwa [length_text] at this
  have htext := congrArg text heq
  rw [text_ofText, text_append, text_append, List.append_assoc] at htext
  have hlength : before.length + 1 + body.length + 1 - before.length =
      (text (opening :: (body ++ [closing]))).length := by
    simp only [length_text, List.length_cons, List.length_append, List.length_nil]
    omega
  rw [Text.between, hfirst, hlast, ← htext, List.drop_append_of_le_length (by simp),
    List.drop_of_length_le (by simp), List.nil_append, hlength, List.take_left]

end Mark

namespace Operand

inductive Shows : Operand → Piece → Prop
  | word {apart : Bool} {first : Mark} {rest : List Mark} : (Operand.word first rest).Sound →
      Shows (.word first rest) (.word apart first rest)
  | group {apart : Bool} {opening closing : Mark} {body : List Mark} {inside : List Piece} :
      Outline true body inside → Shows (.group opening body closing)
        (.group apart opening inside closing)

def ShowsIn (segment : List Mark) (o : Operand) (p : Piece) : Prop :=
  o.Shows p ∧ o.marks <:+: segment

theorem ShowsIn.mono {segment whole : List Mark} {o : Operand} {p : Piece}
    (h : ShowsIn segment o p) (hsegment : segment <:+: whole) : ShowsIn whole o p :=
  ⟨h.1, h.2.trans hsegment⟩

theorem endsWord_of_apart {segment : List Mark} {pieces : List Piece}
    (h : Outline false segment pieces) (happart : ∀ p ∈ pieces, p.apart) : EndsWord segment := by
  intro m rest heq
  cases pieces with
  | nil => exact h.all_isBlank m (by simp [heq])
  | cons p others =>
      obtain ⟨gap, first, more, hgap, -, rfl, -, hflag⟩ := h.exists_head
      cases gap with
      | nil =>
          rw [happart p (by simp)] at hflag
          cases hflag
      | cons b gap => exact hgap m (by simp [(List.cons.inj heq).1])

theorem exists_of_glued {m : Mark} {rest : List Mark} {pieces : List Piece}
    (h : Outline false (m :: rest) pieces) (hm : m.isBlank = false) :
    ∃ p others, pieces = p :: others ∧ p.apart = false ∧ p.start = m.place := by
  cases pieces with
  | nil =>
      rw [h.all_isBlank m (by simp)] at hm
      cases hm
  | cons p others =>
      obtain ⟨gap, first, more, hgap, -, heq, hstart, hflag⟩ := h.exists_head
      cases gap with
      | nil =>
          obtain ⟨rfl, -⟩ := List.cons.inj heq
          exact ⟨p, others, rfl, hflag, hstart⟩
      | cons b gap =>
          obtain ⟨rfl, -⟩ := List.cons.inj heq
          rw [hgap m (by simp)] at hm
          cases hm

theorem skipBlanks_gap {gap rest : List Mark} {m : Mark} (hgap : ∀ b ∈ gap, b.isBlank)
    (hm : m.isBlank = false) : Mark.skipBlanks (gap ++ m :: rest) = m :: rest := by
  rw [Mark.skipBlanks_append hgap]
  exact Mark.skipBlanks_cons_of_not hm

section Split

variable {beyond : List Mark}

theorem split_word_glued {segment inner more : List Mark} {first next : Mark}
    (hskip : Mark.skipBlanks segment = first :: (inner ++ next :: more))
    (hsound : (word first inner).Sound) (hnext : next.char = '(') :
    split beyond segment = .error (.missingSeparator next.place) := by
  obtain ⟨hfirst, hinner⟩ := List.forall_mem_cons.1 hsound.isInner
  have hstops : StopsWord (next :: more) := by
    rintro _ _ ⟨⟩
    exact .inr hnext
  have hdrop := (takeWhile_isInner hinner hstops).2
  rw [split_eq, hskip]
  simp only [if_neg (isInner_iff.1 hfirst).2, hdrop, if_pos hnext]

theorem split_group_glued {segment body more : List Mark} {opening closing next : Mark}
    (hskip : Mark.skipBlanks segment = opening :: (body ++ closing :: next :: more))
    (hsound : (group opening body closing).Sound) (hnext : next.isBlank = false) :
    split beyond segment = .error (.missingSeparator next.place) := by
  rw [split_eq, hskip]
  simp only [if_pos hsound.1, close?_beyond hsound, drop_group, hnext, Bool.false_eq_true, if_false]

theorem exists_sequence {edge : Bool} {segment : List Mark} {pieces : List Piece}
    (h : Outline edge segment pieces) (happart : ∀ p ∈ pieces, p.apart) :
    ∃ operands, Sequence segment operands ∧ List.Forall₂ (ShowsIn segment) operands pieces := by
  induction h with
  | nil hgap => exact ⟨[], .nil hgap, .nil⟩
  | @word edge gap rest after first others hgap hword hstops hothers ih =>
      obtain ⟨-, hrest⟩ := List.forall_mem_cons.1 happart
      obtain ⟨operands, hsequence, hshows⟩ := ih hrest
      refine ⟨.word first rest :: operands, ?_, .cons ⟨.word hword, gap, after, by simp [marks]⟩ ?_⟩
      · have hall : Sequence _ (.word first rest :: operands) :=
          .cons hgap hword (endsWord_of_apart hothers hrest) hsequence
        simpa [marks] using hall
      · refine hshows.imp fun o p ho => ho.mono ?_
        exact ⟨gap ++ first :: rest, [], by simp⟩
  | @group edge gap body after opening closing inside others hgap hopen hclose hbody hothers _ ih =>
      obtain ⟨-, hrest⟩ := List.forall_mem_cons.1 happart
      obtain ⟨operands, hsequence, hshows⟩ := ih hrest
      refine ⟨.group opening body closing :: operands, ?_,
        .cons ⟨.group hbody, gap, after, by simp [marks]⟩ ?_⟩
      · have hall : Sequence _ (.group opening body closing :: operands) :=
          .cons hgap ⟨hopen, hclose, hbody.balanced⟩ (endsWord_of_apart hothers hrest) hsequence
        simpa [marks] using hall
      · refine hshows.imp fun o p ho => ho.mono ?_
        exact ⟨gap ++ opening :: (body ++ [closing]), [], by simp⟩

theorem split_of_outline (beyond : List Mark) {edge : Bool} {segment : List Mark}
    {pieces : List Piece} (h : Outline edge segment pieces) (happart : ∀ p ∈ pieces, p.apart) :
    ∃ operands, split beyond segment = .ok operands ∧
      List.Forall₂ (ShowsIn segment) operands pieces := by
  obtain ⟨operands, hsequence, hshows⟩ := exists_sequence h happart
  exact ⟨operands, split_of_sequence hsequence, hshows⟩

/-- What stands between the pieces of a segment: a blank, unless the next piece is glued to the one
before it. -/
theorem endsWord_or_glued {after : List Mark} {others : List Piece}
    (h : Outline false after others) : EndsWord after ∨ ∃ next more p rest, after = next :: more ∧
      next.isBlank = false ∧ others = p :: rest ∧ p.apart = false ∧ p.start = next.place := by
  cases after with
  | nil => exact .inl endsWord_nil
  | cons next more =>
      cases hblank : next.isBlank with
      | true => exact .inl (endsWord_cons hblank)
      | false =>
          obtain ⟨p, rest, hothers, happart, hstart⟩ := exists_of_glued h hblank
          exact .inr ⟨next, more, p, rest, rfl, hblank, hothers, happart, hstart⟩

theorem apart_head {edge : Bool} {segment : List Mark} {p : Piece} {others : List Piece}
    (h : Outline edge segment (p :: others)) (hedge : edge = true ∨ EndsWord segment) :
    p.apart = true := by
  obtain ⟨gap, first, rest, -, hfirst, rfl, -, hflag⟩ := h.exists_head
  rw [hflag]
  cases gap with
  | cons b gap => simp
  | nil =>
      obtain rfl | hends := hedge
      · rfl
      · rw [hends first rest rfl] at hfirst
        cases hfirst

/-- A segment is refused at its first piece that is not set apart. -/
theorem split_of_glued (beyond : List Mark) {edge : Bool} {segment : List Mark}
    {pieces : List Piece} {piece : Piece} (h : Outline edge segment pieces)
    (hedge : edge = true ∨ EndsWord segment) (hfind : pieces.find? (!·.apart) = some piece) :
    split beyond segment = .error (.missingSeparator piece.start) := by
  induction h with
  | nil _ => cases hfind
  | @word edge gap rest after first others hgap hword hstops hothers ih =>
      have happart := apart_head (.word hgap hword hstops hothers) hedge
      have hskip : Mark.skipBlanks (gap ++ first :: (rest ++ after)) = first :: (rest ++ after) :=
        skipBlanks_gap hgap (isInner_iff.1 ((Sound.isInner hword) first (by simp))).1
      rw [List.find?_cons_of_neg (by simp [happart])] at hfind
      obtain hends | ⟨next, more, p, remaining, rfl, hblank, rfl, hglued, hstart⟩ :=
        endsWord_or_glued hothers
      · rw [split_word hskip hword hends, ih (.inr hends) hfind]
        rfl
      · obtain hnext | hnext := hstops next more rfl
        · rw [hblank] at hnext
          cases hnext
        · rw [List.find?_cons_of_pos (by simp [hglued]), Option.some.injEq] at hfind
          rw [split_word_glued hskip hword hnext, ← hstart, hfind]
  | @group edge gap body after opening closing inside others hgap hopen hclose hbody hothers _ ih =>
      have happart := apart_head (.group hgap hopen hclose hbody hothers) hedge
      have hskip : Mark.skipBlanks (gap ++ opening :: (body ++ closing :: after)) =
          opening :: (body ++ closing :: after) :=
        skipBlanks_gap hgap (isBlank_opening hopen)
      have hsound : (group opening body closing).Sound := ⟨hopen, hclose, hbody.balanced⟩
      rw [List.find?_cons_of_neg (by simp [happart])] at hfind
      obtain hends | ⟨next, more, p, remaining, rfl, hblank, rfl, hglued, hstart⟩ :=
        endsWord_or_glued hothers
      · rw [split_group hskip hsound hends, ih (.inr hends) hfind]
        rfl
      · rw [List.find?_cons_of_pos (by simp [hglued]), Option.some.injEq] at hfind
        rw [split_group_glued hskip hsound hblank, ← hstart, hfind]

end Split

end Operand

namespace Formula

open Operand (Shows ShowsIn)
open Piece (levelFlaws separatorFlaws findingsOfAll phrases?)

theorem readHead_unknown {opening : Nat} {gap rest after : List Mark} {first : Mark}
    (hgap : ∀ b ∈ gap, b.isBlank) (hword : (Operand.word first rest).Sound)
    (hstops : StopsWord after) (hop : Operator.ofToken? (Mark.text (first :: rest)) = none) :
    readHead opening (gap ++ first :: (rest ++ after)) =
      .error (.unknownOperator (Mark.text (first :: rest))) := by
  obtain ⟨hfirst, hinner⟩ := List.forall_mem_cons.1 hword.isInner
  obtain ⟨hblank, hopen⟩ := Operand.isInner_iff.1 hfirst
  obtain ⟨htake, -⟩ := Operand.takeWhile_isInner hinner hstops
  simp only [readHead, Operand.skipBlanks_gap hgap hblank, if_neg hopen, htake, hop]

theorem readHead_glued {opening : Nat} {gap rest more : List Mark} {first next : Mark}
    {op : Operator} (hgap : ∀ b ∈ gap, b.isBlank) (hword : (Operand.word first rest).Sound)
    (hop : Operator.ofToken? (Mark.text (first :: rest)) = some op) (hnext : next.char = '(') :
    readHead opening (gap ++ first :: (rest ++ next :: more)) =
      .error (.missingSeparator next.place) := by
  obtain ⟨hfirst, hinner⟩ := List.forall_mem_cons.1 hword.isInner
  obtain ⟨hblank, hopen⟩ := Operand.isInner_iff.1 hfirst
  have hstops : StopsWord (next :: more) := by
    rintro _ _ ⟨⟩
    exact .inr hnext
  obtain ⟨htake, hdrop⟩ := Operand.takeWhile_isInner hinner hstops
  simp only [readHead, Operand.skipBlanks_gap hgap hblank, if_neg hopen, htake, hdrop, hop,
    if_pos hnext]

theorem readHead_word {opening : Nat} {gap rest after : List Mark} {first : Mark} {op : Operator}
    (hgap : ∀ b ∈ gap, b.isBlank) (hop : Operator.ofToken? (Mark.text (first :: rest)) = some op)
    (hends : EndsWord after) :
    readHead opening (gap ++ first :: (rest ++ after)) = .ok ⟨op, after⟩ := by
  rw [← List.cons_append, ← List.append_assoc]
  have htoken := Operator.ofToken?_iff.1 hop
  exact @readHead_append opening gap (first :: rest) ⟨op, after⟩ hgap htoken hends

theorem readHead_group {place : Nat} {gap body after : List Mark} {opening closing : Mark}
    (hgap : ∀ b ∈ gap, b.isBlank) (hgroup : (Operand.group opening body closing).Sound) :
    readHead place (gap ++ opening :: (body ++ closing :: after)) =
      .error (.unknownOperator (Mark.text (opening :: (body ++ [closing])))) := by
  obtain ⟨hopen, hclose, hbody⟩ := hgroup
  have hclosed : Parentheses.close? (body ++ closing :: after) = some ⟨body, closing, after⟩ :=
    Parentheses.close?_iff.2 ⟨rfl, hclose, hbody⟩
  simp only [readHead, Operand.skipBlanks_gap hgap (Operand.isBlank_opening hopen), if_pos hopen,
    hclosed, List.cons_append]

theorem exists_readLevel {opening : Nat} {body : List Mark} {inside : List Piece}
    (h : Outline true body inside) (hflaws : levelFlaws inside = []) :
    ∃ apart first rest others op after operands, inside = .word apart first rest :: others ∧
      Operator.ofToken? (Mark.text (first :: rest)) = some op ∧
        readHead opening body = .ok ⟨op, after⟩ ∧ readOperands ⟨op, after⟩ = .ok operands ∧
          List.Forall₂ (ShowsIn body) operands others := by
  cases h with
  | nil _ => cases hflaws
  | group => cases hflaws
  | @word _ gap rest after first others hgap hword hstops hothers =>
      rw [levelFlaws, Piece.operatorFlaws, Piece.countFlaws] at hflaws
      cases hop : Operator.ofToken? (Mark.text (first :: rest)) with
      | none =>
          rw [hop] at hflaws
          cases hflaws
      | some op =>
          simp only [hop, List.nil_append, List.append_eq_nil_iff, ite_eq_left_iff,
            List.cons_ne_nil, imp_false, not_not] at hflaws
          obtain ⟨hapart, haccepts⟩ := hflaws
          have happart : ∀ p ∈ others, p.apart := by
            simpa [separatorFlaws, List.filter_eq_nil_iff] using hapart
          obtain ⟨operands, hsplit, hshows⟩ := Operand.split_of_outline [] hothers happart
          refine ⟨_, first, rest, others, op, after, operands, rfl, hop, ?_, ?_, ?_⟩
          · exact readHead_word hgap hop (Operand.endsWord_of_apart hothers happart)
          · exact readOperands_iff.2 ⟨hsplit, by rwa [hshows.length_eq]⟩
          · refine hshows.imp fun o p ho => ho.mono ?_
            exact ⟨gap ++ first :: rest, [], by simp⟩

section Level

variable {opening : Nat} {gap rest after : List Mark} {first : Mark} {op : Operator}
  {others : List Piece}

/-- A group is refused for the first place at which a separator is missing, be it right after the
operator. -/
theorem readLevel_glued {piece : Piece} (hgap : ∀ b ∈ gap, b.isBlank)
    (hword : (Operand.word first rest).Sound) (hstops : StopsWord after)
    (hop : Operator.ofToken? (Mark.text (first :: rest)) = some op)
    (hothers : Outline false after others) (hfind : others.find? (!·.apart) = some piece) :
    (readHead opening (gap ++ first :: (rest ++ after))).bind readOperands =
      .error (.missingSeparator piece.start) := by
  obtain hends | ⟨next, more, p, remaining, rfl, hblank, rfl, hglued, hstart⟩ :=
    Operand.endsWord_or_glued hothers
  · have hsplit := Operand.split_of_glued [] hothers (.inr hends) hfind
    rw [readHead_word hgap hop hends]
    simp only [Except.bind, readOperands, hsplit]
  · rw [List.find?_cons_of_pos (by simp [hglued]), Option.some.injEq] at hfind
    obtain hnext | hnext := hstops next more rfl
    · rw [hblank] at hnext
      cases hnext
    · rw [readHead_glued hgap hword hop hnext, ← hstart, hfind]
      rfl

theorem readLevel_count (hgap : ∀ b ∈ gap, b.isBlank)
    (hop : Operator.ofToken? (Mark.text (first :: rest)) = some op)
    (hothers : Outline false after others) (happart : ∀ p ∈ others, p.apart)
    (hcount : ¬ op.arity.accepts others.length) :
    (readHead opening (gap ++ first :: (rest ++ after))).bind readOperands =
      .error (.operandCount op others.length) := by
  obtain ⟨operands, hsplit, hshows⟩ := Operand.split_of_outline [] hothers happart
  rw [readHead_word hgap hop (Operand.endsWord_of_apart hothers happart)]
  simp only [Except.bind, readOperands, hsplit, hshows.length_eq, if_neg hcount]

end Level

theorem readLevel_of_flaw {formula : Text} {opening : Nat} {body : List Mark}
    {inside : List Piece} {flaw : Flaw} (h : Outline true body inside)
    (hbody : body <:+: Mark.ofText formula) (hflaw : (levelFlaws inside).head? = some flaw) :
    (readHead opening body).bind readOperands = .error (flaw.fault formula opening) := by
  cases h with
  | nil hgap =>
      obtain rfl : Flaw.empty = flaw := Option.some.inj hflaw
      have hskip : Mark.skipBlanks body = [] := List.dropWhile_eq_nil_iff.2 hgap
      simp only [readHead, hskip]
      rfl
  | @group _ gap inner after first closing _ others hgap hopen hclose hinner _ =>
      obtain rfl : Flaw.groupForOperator first.place closing.place = flaw := Option.some.inj hflaw
      have hquoted : first :: (inner ++ [closing]) <:+: Mark.ofText formula := by
        refine List.IsInfix.trans ?_ hbody
        exact ⟨gap, after, by simp⟩
      rw [readHead_group hgap ⟨hopen, hclose, hinner.balanced⟩, Flaw.fault,
        Mark.between_eq hquoted]
      rfl
  | @word _ gap rest after first others hgap hword hstops hothers =>
      rw [levelFlaws, Piece.operatorFlaws, Piece.countFlaws] at hflaw
      cases hop : Operator.ofToken? (Mark.text (first :: rest)) with
      | none =>
          rw [hop] at hflaw
          obtain rfl : Flaw.unknownOperator _ = flaw := Option.some.inj hflaw
          rw [readHead_unknown hgap hword hstops hop]
          rfl
      | some op =>
          simp only [hop, List.nil_append, List.head?_append, Piece.head?_separatorFlaws] at hflaw
          cases hfind : others.find? (!·.apart) with
          | some piece =>
              rw [hfind] at hflaw
              obtain rfl : Flaw.noSeparator piece.start = flaw := Option.some.inj hflaw
              exact readLevel_glued hgap hword hstops hop hothers hfind
          | none =>
              rw [hfind, Option.map_none, Option.none_or] at hflaw
              by_cases haccepts : op.arity.accepts others.length
              · rw [if_pos haccepts] at hflaw
                cases hflaw
              · rw [if_neg haccepts] at hflaw
                obtain rfl : Flaw.operandCount op others.length = flaw := Option.some.inj hflaw
                exact readLevel_count hgap hop hothers (by simpa using hfind) haccepts

/-- A result that stops at the first of the findings, and is laid out by what is said where there
are none. -/
def Settles {β γ : Type} (formula : Text) (findings : List Finding) (said : Option β)
    (layout : β → γ) (result : Except FormulaFault γ) : Prop :=
  (∀ finding, findings.head? = some finding → result = .error (finding.fault formula)) ∧
    (findings = [] → ∃ phrase, said = some phrase ∧ result = .ok (layout phrase))

section Walk

variable {formula symbol : Text} {findings : List Finding}

theorem settles_readLeaf (symbol : Text) (base : Nat) {apart : Bool} {first : Mark}
    {rest : List Mark} :
    Settles formula ((Piece.word apart first rest).findings symbol)
      (Piece.word apart first rest).phrase? (·.nodes (wordNode symbol) base)
      (readOperand symbol base (.word first rest)) := by
  rw [Piece.findings, Piece.leafFindings, Piece.phrase?, readOperand]
  constructor
  · intro finding hfinding
    split at hfinding
    · cases hfinding
    · rename_i hnone
      rw [not_or, not_or, Bool.not_eq_true, Option.isSome_eq_false_iff, Option.isNone_iff_eq_none]
        at hnone
      obtain ⟨hsymbol, hpi, hnumeral⟩ := hnone
      obtain rfl : Finding.leaf _ = finding := Option.some.inj hfinding
      simp only [readLeaf, if_neg hsymbol, if_neg hpi, Literal.read?, hnumeral, Option.map_none]
      rfl
  · intro hnone
    split at hnone
    · rename_i htoken
      rw [Literal.numeral?_isSome] at htoken
      refine ⟨_, rfl, ?_⟩
      rw [readLeaf_iff.2 ⟨htoken, rfl⟩]
      rfl
    · cases hnone

theorem settles_readEach {operands : List Operand} {pieces : List Piece} {base : Nat}
    (hshows : List.Forall₂ (ShowsIn (Mark.ofText formula)) operands pieces)
    (h : ∀ p ∈ pieces, ∀ o, ShowsIn (Mark.ofText formula) o p → ∀ base,
      Settles formula (p.findings symbol) p.phrase? (·.nodes (wordNode symbol) base)
        (readOperand symbol base o)) :
    Settles formula (findingsOfAll symbol pieces) (phrases? pieces)
      (layouts (wordNode symbol) base) (readEach symbol base operands) := by
  induction hshows generalizing base with
  | nil =>
      refine ⟨by rintro _ ⟨⟩, fun _ => ⟨[], rfl, ?_⟩⟩
      rw [readEach]
      rfl
  | @cons o p rest others hfirst _ ih =>
      obtain ⟨hp, hothers⟩ := List.forall_mem_cons.1 h
      obtain ⟨hfaulty, hsaid⟩ := hp o hfirst base
      rw [readEach_cons, findingsOfAll, phrases?]
      cases hfindings : p.findings symbol with
      | cons finding more =>
          refine ⟨?_, by rintro ⟨⟩⟩
          rintro _ ⟨⟩
          rw [hfaulty finding (by rw [hfindings]; rfl)]
          rfl
      | nil =>
          obtain ⟨phrase, hphrase, hread⟩ := hsaid hfindings
          obtain ⟨hrest, hphrases⟩ := @ih (base + phrase.size) hothers
          rw [hread, bind_of_ok rfl, Term.length_nodes, List.nil_append, hphrase, Option.bind_some]
          refine ⟨fun finding hfinding => ?_, fun hnone => ?_⟩
          · rw [hrest finding hfinding]
            rfl
          · obtain ⟨phrases, hsome, hlaid⟩ := hphrases hnone
            exact ⟨phrase :: phrases, by rw [hsome]; rfl, by rw [hlaid]; rfl⟩

theorem readGroup_of_error {base opening : Nat} {body : List Mark} {fault : FormulaFault}
    (h : (readHead opening body).bind readOperands = .error fault) :
    readGroup symbol base opening body = .error fault := by
  rw [readGroup_eq]
  cases hhead : readHead opening body with
  | error other =>
      rw [hhead] at h
      exact congrArg Except.error (Except.error.inj h)
  | ok head =>
      rw [hhead, bind_of_ok rfl] at h
      rw [bind_of_ok rfl, h]
      rfl

/-- An operand is refused for the first thing that is wrong with it, and read as what it says if
nothing is. -/
theorem settles_readOperand {o : Operand} {p : Piece} (h : ShowsIn (Mark.ofText formula) o p)
    (base : Nat) : Settles formula (p.findings symbol) p.phrase?
      (·.nodes (wordNode symbol) base) (readOperand symbol base o) := by
  induction p generalizing o base with
  | word apart first rest =>
      cases h.1 with
      | word _ => exact settles_readLeaf symbol base
  | group apart opening inside closing ih =>
      obtain ⟨hshows, hplace⟩ := h
      cases hshows with
      | @group _ _ _ body _ houtline =>
          have hbody : body <:+: Mark.ofText formula := by
            refine List.IsInfix.trans ?_ hplace
            exact ⟨[opening], [closing], by simp [Operand.marks]⟩
          rw [Piece.findings_group, readOperand]
          cases hflaws : levelFlaws inside with
          | cons flaw more =>
              refine ⟨?_, by rintro ⟨⟩⟩
              rintro _ ⟨⟩
              exact readGroup_of_error (readLevel_of_flaw houtline hbody (by rw [hflaws]; rfl))
          | nil =>
              obtain ⟨_, first, rest, others, op, after, operands, rfl, hop, hhead, hoperands,
                hothers⟩ := exists_readLevel houtline hflaws
              have heach : Settles formula (findingsOfAll symbol others) (phrases? others)
                  (layouts (wordNode symbol) (base + 1)) (readEach symbol (base + 1) operands) := by
                refine settles_readEach (hothers.imp fun o p ho => ho.mono hbody) ?_
                intro p hp o ho base
                exact ih p (List.mem_cons_of_mem _ hp) ho base
              obtain ⟨hfaulty, hsaid⟩ := heach
              rw [readGroup_eq, bind_of_ok hhead, bind_of_ok hoperands, List.map_nil,
                List.nil_append, List.tail_cons, Piece.phrase?, hop, Option.bind_some]
              refine ⟨fun finding hfinding => ?_, fun hnone => ?_⟩
              · rw [hfaulty finding hfinding]
                rfl
              · obtain ⟨phrases, hphrases, hread⟩ := hsaid hnone
                refine ⟨.apply op phrases, by rw [hphrases]; rfl, ?_⟩
                rw [hread]
                dsimp only [Except.map]
                rw [flatten_layouts, places_layouts, Term.nodes]

end Walk

end Formula

end PrefixIntegral
