import Mathlib.Data.List.TakeWhile
import PrefixIntegral.Formula.Reader
import PrefixIntegral.Proofs.Grammar
import PrefixIntegral.Proofs.Outcome

namespace PrefixIntegral

open Grammar (IsWord)

namespace Mark

theorem skipBlanks_append {gap rest : List Mark} (hgap : ∀ m ∈ gap, m.isBlank) :
    skipBlanks (gap ++ rest) = skipBlanks rest :=
  List.dropWhile_append_of_pos hgap

theorem skipBlanks_cons_of_not {m : Mark} {rest : List Mark} (h : m.isBlank = false) :
    skipBlanks (m :: rest) = m :: rest := by
  rw [skipBlanks, List.dropWhile_cons, h]
  rfl

theorem exists_of_skipBlanks {marks : List Mark} {m : Mark} {rest : List Mark}
    (h : skipBlanks marks = m :: rest) :
    m.isBlank = false ∧ ∃ gap, (∀ b ∈ gap, b.isBlank) ∧ marks = gap ++ m :: rest := by
  refine ⟨?_, marks.takeWhile isBlank, fun b hb => List.all_eq_true.1 List.all_takeWhile b hb, ?_⟩
  · have := List.head?_dropWhile_not isBlank marks
    rwa [← skipBlanks, h] at this
  · rw [← h, skipBlanks, List.takeWhile_append_dropWhile]

theorem all_isBlank_of_skipBlanks {marks : List Mark} (h : skipBlanks marks = []) :
    ∀ m ∈ marks, m.isBlank :=
  List.dropWhile_eq_nil_iff.1 h

theorem isAllBlank_text {marks : List Mark} :
    Text.isAllBlank (text marks) ↔ ∀ m ∈ marks, m.isBlank := by
  simp [Text.isAllBlank, text, isBlank]

end Mark

namespace Operand

def marks : Operand → List Mark
  | word first rest => first :: rest
  | group opening body closing => opening :: (body ++ [closing])

def text (o : Operand) : Text := Mark.text o.marks

/-- An operand that may stand in a formula: a word without parentheses, or a balanced group. -/
def Sound : Operand → Prop
  | word first rest => IsWord (Mark.text (first :: rest))
  | group opening body closing =>
    opening.char = '(' ∧ closing.char = ')' ∧ Text.Balanced (Mark.text body)

def EndsWord (marks : List Mark) : Prop := ∀ m rest, marks = m :: rest → m.isBlank

/-- Operands one after another, with blanks around and between them. -/
inductive Sequence : List Mark → List Operand → Prop
  | nil {gap : List Mark} : (∀ m ∈ gap, m.isBlank) → Sequence gap []
  | cons {gap rest : List Mark} {o : Operand} {others : List Operand} : (∀ m ∈ gap, m.isBlank) →
      o.Sound → EndsWord rest → Sequence rest others →
      Sequence (gap ++ o.marks ++ rest) (o :: others)

theorem Sequence.blank_cons {m : Mark} {marks : List Mark} {operands : List Operand}
    (hm : m.isBlank) (h : Sequence marks operands) : Sequence (m :: marks) operands := by
  cases h with
  | nil hgap => exact .nil (by simpa [hm] using hgap)
  | @cons gap rest o others hgap ho hrest hothers =>
      have hall : ∀ b ∈ m :: gap, b.isBlank := by simpa [hm] using hgap
      exact .cons hall ho hrest hothers

theorem ne_closing_of_depthAfter? {depth : Nat} {word rest : Text}
    (h : Text.depthAfter? 0 (word ++ rest) = some depth) (hword : ∀ c ∈ word, c ≠ '(') :
    ∀ c ∈ word, c ≠ ')' := by
  induction word with
  | nil => simp
  | cons c others ih =>
      have hopen := hword c (by simp)
      have hclose : c ≠ ')' := by
        rintro rfl
        simp [Text.depthAfter?, Text.nextDepth?] at h
      rw [List.cons_append, Text.depthAfter?, Text.nextDepth?, if_neg hopen, if_neg hclose] at h
      intro d hd
      rcases List.mem_cons.1 hd with rfl | hd
      · exact hclose
      · exact ih h (fun e he => hword e (by simp [he])) d hd

theorem split_eq (beyond segment : List Mark) : split beyond segment =
    match Mark.skipBlanks segment with
    | [] => .ok []
    | m :: rest =>
      if m.char = '(' then
        match Parentheses.close? (rest ++ beyond) with
        | none => .error .unclosed
        | some g =>
          match rest.drop (g.body.length + 1) with
          | [] => .ok [.group m g.body g.closing]
          | next :: more =>
            if next.isBlank then (split beyond more).map (.group m g.body g.closing :: ·)
            else .error (.missingSeparator next.place)
      else
        match rest.dropWhile Mark.isInner with
        | [] => .ok [.word m (rest.takeWhile Mark.isInner)]
        | next :: more =>
          if next.char = '(' then .error (.missingSeparator next.place)
          else (split beyond more).map (.word m (rest.takeWhile Mark.isInner) :: ·) := by
  rw [split.eq_def]
  split
  · rename_i hskip
    simp only [hskip]
  · rename_i m rest hskip
    simp only [hskip]
    split
    · cases Parentheses.close? (rest ++ beyond) with
      | none => rfl
      | some g =>
          dsimp only
          split <;> rename_i hnext <;> simp only [hnext]
    · split <;> rename_i hnext <;> simp only [hnext]

variable {beyond : List Mark}

theorem split_of_nil {segment : List Mark} (h : Mark.skipBlanks segment = []) :
    split beyond segment = .ok [] := by
  rw [split_eq, h]

theorem split_blank_cons {m : Mark} {marks : List Mark} (hm : m.isBlank) :
    split beyond (m :: marks) = split beyond marks := by
  have hskip : Mark.skipBlanks (m :: marks) = Mark.skipBlanks marks := by
    rw [Mark.skipBlanks, List.dropWhile_cons, if_pos hm, Mark.skipBlanks]
  rw [split_eq, split_eq beyond marks, hskip]

theorem isInner_iff {m : Mark} : m.isInner ↔ m.isBlank = false ∧ m.char ≠ '(' := by
  simp [Mark.isInner]

theorem isBlank_opening {m : Mark} (h : m.char = '(') : m.isBlank = false := by
  rw [Mark.isBlank, h]
  decide

/-- Marks that do not go on with a word: they are at an end, or a blank or a group comes first. -/
def StopsWord (marks : List Mark) : Prop :=
  ∀ m rest, marks = m :: rest → m.isBlank ∨ m.char = '('

theorem EndsWord.stopsWord {marks : List Mark} (h : EndsWord marks) : StopsWord marks :=
  fun m rest heq => .inl (h m rest heq)

theorem StopsWord.append {marks rest : List Mark} {opening : Mark} (h : StopsWord marks)
    (hopen : opening.char = '(') : StopsWord (marks ++ opening :: rest) := by
  intro m more heq
  cases marks with
  | nil =>
      obtain ⟨rfl, -⟩ := List.cons.inj heq
      exact .inr hopen
  | cons next others =>
      obtain ⟨rfl, -⟩ := List.cons.inj heq
      exact h next others rfl

theorem takeWhile_isInner {inner rest : List Mark} (hinner : ∀ m ∈ inner, m.isInner)
    (hrest : StopsWord rest) :
    (inner ++ rest).takeWhile Mark.isInner = inner ∧
      (inner ++ rest).dropWhile Mark.isInner = rest := by
  rw [List.takeWhile_append_of_pos hinner, List.dropWhile_append_of_pos hinner]
  cases rest with
  | nil => simp
  | cons next more =>
      have hnext : next.isInner = false := by
        obtain hblank | hopen := hrest next more rfl
        · simp [Mark.isInner, hblank]
        · simp [Mark.isInner, hopen]
      rw [List.takeWhile_cons, List.dropWhile_cons, hnext]
      simp

theorem Sound.isInner {first : Mark} {inner : List Mark} (h : (word first inner).Sound) :
    ∀ m ∈ first :: inner, m.isInner := by
  intro m hm
  obtain ⟨hblank, hopen, -⟩ := h.2 m.char (List.mem_map_of_mem hm)
  exact isInner_iff.2 ⟨hblank, hopen⟩

theorem split_word {segment inner rest : List Mark} {first : Mark}
    (hskip : Mark.skipBlanks segment = first :: (inner ++ rest))
    (hsound : (word first inner).Sound) (hrest : EndsWord rest) :
    split beyond segment = (split beyond rest).map (word first inner :: ·) := by
  obtain ⟨hfirst, hinner⟩ := List.forall_mem_cons.1 hsound.isInner
  obtain ⟨htake, hdrop⟩ := takeWhile_isInner hinner hrest.stopsWord
  rw [split_eq, hskip]
  simp only [if_neg (isInner_iff.1 hfirst).2, htake, hdrop]
  cases rest with
  | nil =>
      rw [split_of_nil rfl]
      rfl
  | cons next more =>
      have hblank := hrest next more rfl
      simp only [if_neg (Grammar.ne_parenthesis_of_isBlank hblank).1, split_blank_cons hblank]

theorem close?_beyond {body rest : List Mark} {opening closing : Mark}
    (hsound : (group opening body closing).Sound) :
    Parentheses.close? (body ++ closing :: rest ++ beyond) = some ⟨body, closing, rest ++ beyond⟩ :=
  Parentheses.close?_iff.2 ⟨by simp, hsound.2⟩

theorem drop_group (body rest : List Mark) (closing : Mark) :
    (body ++ closing :: rest).drop (body.length + 1) = rest := by
  rw [List.drop_append, List.drop_of_length_le (by omega)]
  simp

theorem split_group {segment body rest : List Mark} {opening closing : Mark}
    (hskip : Mark.skipBlanks segment = opening :: (body ++ closing :: rest))
    (hsound : (group opening body closing).Sound) (hrest : EndsWord rest) :
    split beyond segment = (split beyond rest).map (group opening body closing :: ·) := by
  rw [split_eq, hskip]
  simp only [if_pos hsound.1, close?_beyond hsound, drop_group]
  cases rest with
  | nil =>
      rw [split_of_nil rfl]
      rfl
  | cons next more =>
      have hblank := hrest next more rfl
      simp only [if_pos hblank, split_blank_cons hblank]

/-- A sequence of operands splits into just these. -/
theorem split_of_sequence {segment : List Mark} {operands : List Operand}
    (h : Sequence segment operands) : split beyond segment = .ok operands := by
  induction h with
  | @nil gap hgap =>
      refine split_of_nil ?_
      rw [← List.append_nil gap, Mark.skipBlanks_append hgap]
      rfl
  | @cons gap rest o others hgap ho hrest _ ih =>
      cases o with
      | word first inner =>
          have hfirst := isInner_iff.1 (ho.isInner first (by simp))
          have hskip : Mark.skipBlanks (gap ++ (word first inner).marks ++ rest) =
              first :: (inner ++ rest) := by
            rw [List.append_assoc, Mark.skipBlanks_append hgap]
            exact Mark.skipBlanks_cons_of_not hfirst.1
          rw [split_word hskip ho hrest, ih]
          rfl
      | group opening body closing =>
          have hopen := isBlank_opening ho.1
          have hskip : Mark.skipBlanks (gap ++ (group opening body closing).marks ++ rest) =
              opening :: (body ++ closing :: rest) := by
            rw [List.append_assoc, Mark.skipBlanks_append hgap]
            simpa [marks] using Mark.skipBlanks_cons_of_not hopen
          rw [split_group hskip ho hrest, ih]
          rfl

theorem Sound.text_balanced {o : Operand} (h : o.Sound) : Text.Balanced o.text := by
  cases o with
  | word first inner => exact h.balanced
  | group opening body closing =>
      obtain ⟨hopen, hclose, hbody⟩ := h
      simpa [text, marks, hopen, hclose] using hbody.group

theorem sound_word {segment rest : List Mark} {m : Mark}
    (hskip : Mark.skipBlanks segment = m :: rest) (hopen : m.char ≠ '(')
    (hb : Text.Balanced (Mark.text segment)) :
    (word m (rest.takeWhile Mark.isInner)).Sound := by
  obtain ⟨hblank, gap, hgap, rfl⟩ := Mark.exists_of_skipBlanks hskip
  have hinner : ∀ b ∈ m :: rest.takeWhile Mark.isInner, b.isInner := by
    rw [List.forall_mem_cons]
    exact ⟨isInner_iff.2 ⟨hblank, hopen⟩, List.all_eq_true.1 List.all_takeWhile⟩
  have hplain : ∀ c ∈ Mark.text (m :: rest.takeWhile Mark.isInner),
      Text.isBlank c = false ∧ c ≠ '(' := by
    intro c hc
    obtain ⟨b, hmem, rfl⟩ := List.mem_map.1 hc
    exact isInner_iff.1 (hinner b hmem)
  rw [Mark.text_append] at hb
  have hrest := (Grammar.balanced_of_isAllBlank (Mark.isAllBlank_text.2 hgap)).of_append hb
  rw [← rest.takeWhile_append_dropWhile (p := Mark.isInner), ← List.cons_append,
    Mark.text_append] at hrest
  have hclose := ne_closing_of_depthAfter? hrest fun c hc => (hplain c hc).2
  exact ⟨by simp, fun c hc => ⟨(hplain c hc).1, (hplain c hc).2, hclose c hc⟩⟩

theorem Sequence.of_operand {segment rest : List Mark} {o : Operand} {others : List Operand}
    (hsegment : ∃ gap : List Mark, (∀ b ∈ gap, b.isBlank) ∧ segment = gap ++ (o.marks ++ rest))
    (hb : Text.Balanced (Mark.text segment)) (ho : o.Sound) (hrest : EndsWord rest)
    (hothers : Text.Balanced (Mark.text rest) → Sequence rest others) :
    Sequence segment (o :: others) := by
  obtain ⟨gap, hgap, rfl⟩ := hsegment
  rw [Mark.text_append, Mark.text_append] at hb
  have hafter := (Grammar.balanced_of_isAllBlank (Mark.isAllBlank_text.2 hgap)).of_append hb
  rw [← List.append_assoc]
  exact .cons hgap ho hrest (hothers (ho.text_balanced.of_append hafter))

theorem sequence_nil : Sequence [] [] := .nil (by simp)

theorem endsWord_nil : EndsWord [] := fun _ _ h => by cases h

theorem endsWord_cons {m : Mark} {rest : List Mark} (h : m.isBlank) : EndsWord (m :: rest) := by
  rintro _ _ ⟨⟩
  exact h

theorem Sequence.of_blank_cons {m : Mark} {rest : List Mark} {operands : List Operand}
    (hm : m.isBlank) (h : Text.Balanced (Mark.text rest) → Sequence rest operands)
    (hb : Text.Balanced (Mark.text (m :: rest))) : Sequence (m :: rest) operands := by
  have hblank : Text.Balanced [m.char] :=
    Grammar.balanced_of_isAllBlank (by simpa [Text.isAllBlank, Mark.isBlank] using hm)
  exact (h (hblank.of_append hb)).blank_cons hm

theorem isBlank_of_dropWhile {rest more : List Mark} {next : Mark}
    (hnext : rest.dropWhile Mark.isInner = next :: more) (hne : next.char ≠ '(') :
    next.isBlank := by
  have hnot := List.head?_dropWhile_not Mark.isInner rest
  rw [hnext] at hnot
  simpa [Mark.isInner, hne] using hnot

theorem stopsWord_dropWhile (rest : List Mark) : StopsWord (rest.dropWhile Mark.isInner) := by
  intro m more heq
  by_cases hopen : m.char = '('
  · exact .inr hopen
  · exact .inl (isBlank_of_dropWhile heq hopen)

/-- A balanced segment that splits is the sequence of its operands. -/
theorem sequence_of_split {segment : List Mark} {operands : List Operand}
    (hb : Text.Balanced (Mark.text segment)) (h : split [] segment = .ok operands) :
    Sequence segment operands := by
  -- An operand is the last one (cases 3 and 6) or stands before a blank (cases 4 and 8).
  fun_induction split [] segment generalizing operands with
  | case1 segment hnil =>
      cases h
      exact .nil (Mark.all_isBlank_of_skipBlanks hnil)
  | case2 => cases h
  | case3 segment m rest hskip _ hopen g hg hnext =>
      cases h
      obtain ⟨-, gap, hgap, hsegment⟩ := Mark.exists_of_skipBlanks hskip
      obtain ⟨hrest, hclose, hbody⟩ := Parentheses.close?_iff.1 hg
      rw [List.append_nil] at hrest
      have hafter : g.after = [] := by simpa [hrest] using hnext
      refine .of_operand ⟨gap, hgap, ?_⟩ hb ⟨hopen, hclose, hbody⟩ endsWord_nil
        fun _ => sequence_nil
      rw [hsegment, hrest, hafter]
      simp [marks]
  | case4 segment m rest hskip _ hopen g hg next more hnext hblank ih =>
      obtain ⟨others, hothers, rfl⟩ := map_eq_ok_iff.1 h
      obtain ⟨-, gap, hgap, hsegment⟩ := Mark.exists_of_skipBlanks hskip
      obtain ⟨hrest, hclose, hbody⟩ := Parentheses.close?_iff.1 hg
      rw [List.append_nil] at hrest
      have hafter : g.after = next :: more := by simpa [hrest] using hnext
      refine .of_operand ⟨gap, hgap, ?_⟩ hb ⟨hopen, hclose, hbody⟩ (endsWord_cons hblank)
        (.of_blank_cons hblank fun hmore => ih hmore hothers)
      rw [hsegment, hrest, hafter]
      simp [marks]
  | case5 => cases h
  | case6 segment m rest hskip _ hopen hnext =>
      cases h
      obtain ⟨-, gap, hgap, hsegment⟩ := Mark.exists_of_skipBlanks hskip
      refine .of_operand ⟨gap, hgap, ?_⟩ hb (sound_word hskip hopen hb) endsWord_nil
        fun _ => sequence_nil
      rw [hsegment, marks, ← hnext, List.cons_append, List.takeWhile_append_dropWhile]
  | case7 => cases h
  | case8 segment m rest hskip _ hopen next more hnext hne ih =>
      obtain ⟨others, hothers, rfl⟩ := map_eq_ok_iff.1 h
      obtain ⟨-, gap, hgap, hsegment⟩ := Mark.exists_of_skipBlanks hskip
      have hblank := isBlank_of_dropWhile hnext hne
      refine .of_operand ⟨gap, hgap, ?_⟩ hb (sound_word hskip hopen hb) (endsWord_cons hblank)
        (.of_blank_cons hblank fun hmore => ih hmore hothers)
      rw [hsegment, marks, ← hnext, List.cons_append, List.takeWhile_append_dropWhile]

end Operand

end PrefixIntegral
