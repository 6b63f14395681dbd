import PrefixIntegral.Proofs.Relocation

/-!
Spacing. Of the blanks of a text it matters only which of its other characters they set apart; after
an opening and before a closing parenthesis not even that. Texts with the same characters, set apart
in the same way, have the same outline up to places.
-/

namespace PrefixIntegral

open Grammar (IsWord)
open Operand (StopsWord)

/-- A mark that is no blank, and whether it is set apart from what stands before it. A closing
parenthesis counts as set apart. -/
structure Ink where
  mark : Mark
  apart : Bool

namespace Ink

def move (shift : Nat → Nat) (i : Ink) : Ink := ⟨i.mark.move shift, i.apart⟩

end Ink

namespace Mark

/-- The marks that are no blanks. The first of them is set apart already if `apart` says so, and
what follows an opening parenthesis always is. -/
def inks (apart : Bool) : List Mark → List Ink
  | [] => []
  | m :: rest =>
    if m.isBlank then inks true rest
    else ⟨m, apart || m.char == ')'⟩ :: inks (m.char == '(') rest

variable {apart : Bool} {gap marks rest : List Mark} {m : Mark}

theorem inks_of_not_isBlank (hm : m.isBlank = false) : inks apart (m :: rest) =
    ⟨m, apart || m.char == ')'⟩ :: inks (m.char == '(') rest := by
  rw [inks, if_neg (by simp [hm])]

theorem inks_gap (hgap : ∀ b ∈ gap, b.isBlank) (rest : List Mark) :
    inks apart (gap ++ rest) = inks (apart || !gap.isEmpty) rest := by
  induction gap generalizing apart with
  | nil => simp
  | cons b more ih =>
      obtain ⟨hb, hmore⟩ := List.forall_mem_cons.1 hgap
      rw [List.cons_append, inks, if_pos hb, ih hmore]
      simp

theorem inks_of_blank (hgap : ∀ b ∈ gap, b.isBlank) : inks apart gap = [] := by
  have h := @inks_gap apart gap hgap []
  rwa [List.append_nil] at h

theorem all_isBlank_of_inks (h : inks apart marks = []) : ∀ b ∈ marks, b.isBlank := by
  induction marks generalizing apart with
  | nil => simp
  | cons m rest ih =>
      cases hm : m.isBlank with
      | true =>
          rw [inks, if_pos hm] at h
          exact List.forall_mem_cons.2 ⟨hm, ih h⟩
      | false =>
          rw [inks_of_not_isBlank hm] at h
          cases h

theorem exists_of_inks_cons {i : Ink} {more : List Ink} (h : inks apart marks = i :: more) :
    ∃ gap rest, (∀ b ∈ gap, b.isBlank) ∧ i.mark.isBlank = false ∧ marks = gap ++ i.mark :: rest ∧
      i.apart = (apart || !gap.isEmpty || i.mark.char == ')') ∧
        more = inks (i.mark.char == '(') rest := by
  cases hskip : skipBlanks marks with
  | nil =>
      rw [inks_of_blank (all_isBlank_of_skipBlanks hskip)] at h
      cases h
  | cons m rest =>
      obtain ⟨hm, gap, hgap, rfl⟩ := exists_of_skipBlanks hskip
      rw [inks_gap hgap, inks_of_not_isBlank hm] at h
      cases h
      exact ⟨gap, rest, hgap, hm, rfl, rfl, rfl⟩

theorem inks_append_closing {closing : Mark} (hclose : closing.char = ')')
    (first rest : List Mark) : inks apart (first ++ closing :: rest) =
      inks apart first ++ ⟨closing, true⟩ :: inks false rest := by
  have hblank : closing.isBlank = false := by
    rw [isBlank, hclose]
    decide
  induction first generalizing apart with
  | nil => simp [inks_of_not_isBlank hblank, hclose, inks]
  | cons m more ih =>
      rw [List.cons_append, inks, inks]
      split
      · exact ih
      · rw [ih, List.cons_append]

theorem exists_of_inks_append {first more : List Ink} {i : Ink}
    (h : inks apart marks = first ++ i :: more) :
    ∃ before after, marks = before ++ i.mark :: after ∧ inks apart before = first ∧
      more = inks (i.mark.char == '(') after := by
  induction first generalizing apart marks with
  | nil =>
      obtain ⟨gap, rest, hgap, -, rfl, -, rfl⟩ := exists_of_inks_cons h
      exact ⟨gap, rest, rfl, inks_of_blank hgap, rfl⟩
  | cons j others ih =>
      obtain ⟨gap, rest, hgap, hj, rfl, hflag, hrest⟩ := exists_of_inks_cons h
      obtain ⟨before, after, rfl, hbefore, hafter⟩ := ih hrest.symm
      refine ⟨gap ++ j.mark :: before, after, by simp, ?_, hafter⟩
      rw [inks_gap hgap, inks_of_not_isBlank hj, hbefore, ← hflag]

theorem inks_word {word : List Mark}
    (hword : ∀ m ∈ word, m.isBlank = false ∧ m.char ≠ '(' ∧ m.char ≠ ')') (rest : List Mark) :
    inks false (word ++ rest) = word.map (⟨·, false⟩) ++ inks false rest := by
  induction word with
  | nil => rfl
  | cons m more ih =>
      obtain ⟨⟨hblank, hopen, hclose⟩, hmore⟩ := List.forall_mem_cons.1 hword
      rw [List.cons_append, inks_of_not_isBlank hblank, beq_false_of_ne hopen,
        beq_false_of_ne hclose, ih hmore]
      rfl

theorem exists_of_inks_word {word : List Mark}
    (hword : ∀ m ∈ word, m.char ≠ '(') {more : List Ink}
    (h : inks false marks = word.map (⟨·, false⟩) ++ more) :
    ∃ after, marks = word ++ after ∧ more = inks false after := by
  induction word generalizing marks with
  | nil => exact ⟨marks, rfl, h.symm⟩
  | cons m others ih =>
      obtain ⟨hopen, hothers⟩ := List.forall_mem_cons.1 hword
      obtain ⟨gap, rest, -, -, rfl, hflag, hrest⟩ := exists_of_inks_cons h
      have hgap : gap = [] := by
        cases gap with
        | nil => rfl
        | cons b more => cases hflag
      dsimp only at hrest
      rw [beq_false_of_ne hopen] at hrest
      obtain ⟨after, rfl, hafter⟩ := ih hothers hrest.symm
      exact ⟨after, by rw [hgap]; rfl, hafter⟩

theorem inks_map_move (shift : Nat → Nat) (marks : List Mark) :
    inks apart (marks.map (move shift)) = (inks apart marks).map (Ink.move shift) := by
  induction marks generalizing apart with
  | nil => rfl
  | cons m rest ih =>
      rw [List.map_cons, inks, inks, isBlank_move]
      cases m.isBlank with
      | true => exact ih
      | false => exact congrArg (_ :: ·) ih

end Mark

namespace Outline

variable {edge : Bool} {marks respaced : List Mark} {pieces : List Piece} {shift : Nat → Nat}

theorem stopsWord_respaced (h : Outline false marks pieces) (hstops : StopsWord marks)
    (hinks : Mark.inks false respaced = (Mark.inks false marks).map (Ink.move shift)) :
    StopsWord respaced := by
  rintro m rest rfl
  cases hm : m.isBlank with
  | true => exact .inl rfl
  | false =>
      refine .inr ?_
      rw [Mark.inks_of_not_isBlank hm] at hinks
      obtain ⟨i, more, hfirst, hi, -⟩ := List.map_eq_cons_iff.1 hinks.symm
      obtain ⟨gap, others, hgap, hblank, rfl, hflag, -⟩ := Mark.exists_of_inks_cons hfirst
      have hchar : i.mark.char = m.char := congrArg (fun i => i.mark.char) hi
      have hapart : i.apart = (false || m.char == ')') := congrArg Ink.apart hi
      have hclose : m.char ≠ ')' := by
        intro hclose
        have hbalanced := Mark.balanced_of_gap hgap h.balanced
        rw [Mark.text_cons, hchar, hclose] at hbalanced
        cases hbalanced
      rw [hapart, hchar, beq_false_of_ne hclose] at hflag
      have hnone : gap = [] := by
        cases gap with
        | nil => rfl
        | cons b more => cases hflag
      subst hnone
      obtain hnot | hopen := hstops i.mark others rfl
      · rw [hblank] at hnot
        cases hnot
      · rw [← hchar, hopen]

theorem respace (h : Outline edge marks pieces)
    (hinks : Mark.inks edge respaced = (Mark.inks edge marks).map (Ink.move shift)) :
    Outline edge respaced (pieces.map (Piece.move shift)) := by
  induction h generalizing respaced with
  | nil hgap =>
      rw [Mark.inks_of_blank hgap] at hinks
      exact .nil (Mark.all_isBlank_of_inks hinks)
  | @word edge gap rest after first others hgap hword hstops hothers ih =>
      have hplain : ∀ m ∈ first :: rest, m.isBlank = false ∧ m.char ≠ '(' ∧ m.char ≠ ')' :=
        fun m hm => hword.2 m.char (List.mem_map_of_mem hm)
      obtain ⟨⟨hblank, hopen, hclose⟩, hrest⟩ := List.forall_mem_cons.1 hplain
      rw [Mark.inks_gap hgap, Mark.inks_of_not_isBlank hblank, beq_false_of_ne hopen,
        beq_false_of_ne hclose, Mark.inks_word hrest, List.map_cons, List.map_append,
        List.map_map] at hinks
      obtain ⟨gap', more, hgap', -, rfl, hflag, hmore⟩ := Mark.exists_of_inks_cons hinks
      dsimp only [Ink.move, Mark.char_move] at hflag hmore
      rw [beq_false_of_ne hclose, Bool.or_false, Bool.or_false] at hflag
      rw [beq_false_of_ne hopen] at hmore
      have hrest' : ∀ m ∈ rest.map (Mark.move shift), m.char ≠ '(' := by
        intro m hm
        obtain ⟨b, hb, rfl⟩ := List.mem_map.1 hm
        exact (hrest b hb).2.1
      have hword' : Mark.inks false more = (rest.map (Mark.move shift)).map (⟨·, false⟩) ++
          (Mark.inks false after).map (Ink.move shift) := by
        rw [← hmore, List.map_map]
        rfl
      obtain ⟨after', rfl, hafter⟩ := Mark.exists_of_inks_word hrest' hword'
      rw [List.map_cons, Piece.move, hflag]
      refine .word hgap' ?_ (hothers.stopsWord_respaced hstops hafter.symm) (ih hafter.symm)
      have htext : Mark.text (first.move shift :: rest.map (Mark.move shift)) =
          Mark.text (first :: rest) := Mark.text_map_move shift (first :: rest)
      rwa [← htext] at hword
  | @group edge gap body after opening closing inside others hgap hopen hclose hbody hothers ihbody
      ih =>
      have hblank := Operand.isBlank_opening hopen
      rw [Mark.inks_gap hgap, Mark.inks_of_not_isBlank hblank, hopen,
        Mark.inks_append_closing hclose, List.map_cons, List.map_append] at hinks
      obtain ⟨gap', more, hgap', -, rfl, hflag, hmore⟩ := Mark.exists_of_inks_cons hinks
      have hmark : (opening.move shift).char = '(' := hopen
      dsimp only [Ink.move] at hflag hmore
      rw [hmark] at hflag hmore
      obtain ⟨body', after', rfl, hbody', hafter⟩ := Mark.exists_of_inks_append hmore.symm
      have hmark' : (closing.move shift).char = ')' := hclose
      dsimp only [Ink.move] at hafter
      rw [hmark'] at hafter
      have happart : (edge || !gap.isEmpty) = (edge || !gap'.isEmpty) := by simpa using hflag
      rw [List.map_cons, Piece.move, Piece.moveAll_eq_map, happart]
      exact .group hgap' hopen hclose (ihbody hbody') (ih hafter.symm)

theorem move (h : Outline edge marks pieces) (shift : Nat → Nat) :
    Outline edge (marks.map (Mark.move shift)) (pieces.map (Piece.move shift)) :=
  h.respace (Mark.inks_map_move shift marks)

end Outline

end PrefixIntegral
