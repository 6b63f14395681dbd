import Mathlib.Order.Bounds.Basic
import PrefixIntegral.Proofs.Findings

namespace PrefixIntegral

namespace Mark

/-- The second of two marks that touch outside of every group, neither of them blank, where the
first closes a group or the second opens one. -/
def Glued (marks : List Mark) (m : Mark) : Prop :=
  ∃ front last back, marks = front ++ last :: m :: back ∧
    Text.Balanced (text (front ++ [last])) ∧ last.isBlank = false ∧ m.isBlank = false ∧
      (last.char = ')' ∨ m.char = '(')

def Heads (marks : List Mark) (m : Mark) : Prop := m.isBlank = false ∧ ∃ rest, marks = m :: rest

theorem Heads.of_append {gap rest : List Mark} {m : Mark} (hgap : ∀ b ∈ gap, b.isBlank)
    (h : Heads (gap ++ rest) m) : gap = [] ∧ Heads rest m := by
  obtain ⟨hm, more, heq⟩ := h
  cases gap with
  | nil => exact ⟨rfl, hm, more, heq⟩
  | cons b gap =>
      obtain ⟨rfl, -⟩ := List.cons.inj heq
      rw [hgap b (by simp)] at hm
      cases hm

theorem glued_append_iff {front back : List Mark} {m : Mark} (h : Text.Balanced (text front)) :
    Glued (front ++ back) m ↔ Glued front m ∨
      (Heads back m ∧ ∃ init last, front = init ++ [last] ∧ last.isBlank = false ∧
        (last.char = ')' ∨ m.char = '(')) ∨ Glued back m := by
  constructor
  · rintro ⟨first, last, rest, heq, hlevel, hlast, hm, hsides⟩
    obtain ⟨more, rfl, rfl⟩ | ⟨more, rfl, hmore⟩ := List.append_eq_append_iff.1 heq
    · refine .inr (.inr ⟨more, last, rest, rfl, ?_, hlast, hm, hsides⟩)
      rw [List.append_assoc, text_append] at hlevel
      exact h.of_append hlevel
    · cases more with
      | nil =>
          rw [List.append_nil] at h
          rw [text_append] at hlevel
          exact .inr (.inr ⟨[], last, rest, hmore.symm, h.of_append hlevel, hlast, hm, hsides⟩)
      | cons l more =>
          obtain ⟨rfl, htail⟩ := List.cons.inj hmore
          cases more with
          | nil => exact .inr (.inl ⟨⟨hm, rest, htail.symm⟩, first, last, rfl, hlast, hsides⟩)
          | cons b more =>
              obtain rfl : m = b := (List.cons.inj htail).1
              exact .inl ⟨first, last, more, rfl, hlevel, hlast, hm, hsides⟩
  · rintro (⟨first, last, rest, rfl, hrest⟩ | ⟨⟨hm, rest, rfl⟩, init, last, rfl, hlast, hsides⟩ |
      ⟨first, last, rest, rfl, hlevel, hrest⟩)
    · exact ⟨first, last, rest ++ back, by simp, hrest⟩
    · exact ⟨init, last, rest, by simp, h, hlast, hm, hsides⟩
    · refine ⟨front ++ first, last, rest, by simp, ?_, hrest⟩
      rw [List.append_assoc, text_append]
      exact h.append hlevel

theorem not_glued_of_blank {gap : List Mark} {m : Mark} (hgap : ∀ b ∈ gap, b.isBlank) :
    ¬Glued gap m := by
  rintro ⟨front, last, back, rfl, -, hlast, -⟩
  rw [hgap last (by simp)] at hlast
  cases hlast

theorem glued_blanks_append_iff {gap rest : List Mark} {m : Mark} (hgap : ∀ b ∈ gap, b.isBlank) :
    Glued (gap ++ rest) m ↔ Glued rest m := by
  rw [glued_append_iff (Grammar.balanced_of_isAllBlank (isAllBlank_text.2 hgap))]
  refine ⟨?_, fun h => .inr (.inr h)⟩
  rintro (hglued | ⟨-, init, last, rfl, hlast, -⟩ | hglued)
  · exact absurd hglued (not_glued_of_blank hgap)
  · rw [hgap last (by simp)] at hlast
    cases hlast
  · exact hglued

end Mark

namespace Operand

/-- Within an operand nothing is glued: a word has no parentheses, and a group is open until its
last mark. -/
theorem Sound.not_glued {o : Operand} {m : Mark} (h : o.Sound) : ¬Mark.Glued o.marks m := by
  rintro ⟨front, last, back, heq, hlevel, -, -, hsides⟩
  cases o with
  | word first rest =>
      have hplain : ∀ b ∈ front ++ last :: m :: back, b.char ≠ '(' ∧ b.char ≠ ')' := by
        rw [← heq]
        exact fun b hb => (h.2 b.char (List.mem_map_of_mem hb)).2
      obtain hlast | hm := hsides
      · exact (hplain last (by simp)).2 hlast
      · exact (hplain m (by simp)).1 hm
  | group opening body closing =>
      obtain ⟨hopen, -, hbody⟩ := h
      obtain ⟨inner, hinner, rest, hrest⟩ : ∃ inner, front ++ [last] = opening :: inner ∧
          inner <+: body := by
        cases front with
        | nil =>
            obtain ⟨rfl, -⟩ := List.cons.inj heq
            exact ⟨[], rfl, List.nil_prefix⟩
        | cons b front =>
            obtain ⟨rfl, htail⟩ := List.cons.inj heq
            have hbody : body ++ [closing] = front ++ [last] ++ m :: back := by simpa using htail
            have hlength := congrArg List.length hbody
            rw [List.length_append, List.length_append, List.length_singleton,
              List.length_cons] at hlength
            exact ⟨front ++ [last], rfl, List.prefix_of_prefix_length_le ⟨_, hbody.symm⟩
              (List.prefix_append body _) (by omega)⟩
      rw [← hrest, Mark.text_append, Text.Balanced, Text.depthAfter?_append] at hbody
      obtain ⟨depth, hdepth, -⟩ := Option.bind_eq_some_iff.1 hbody
      rw [hinner, Mark.text_cons, hopen, Text.Balanced, Text.depthAfter?, Text.nextDepth?,
        if_pos rfl, Option.bind_some, Text.depthAfter?_add hdepth] at hlevel
      cases hlevel

end Operand

namespace Outline

open Mark (Glued Heads)

variable {edge : Bool} {marks : List Mark} {p : Piece} {pieces : List Piece}

theorem apart_iff (h : Outline edge marks (p :: pieces)) {place : Nat} :
    p.apart = false ∧ p.start = place ↔
      ∃ m, (edge = false ∧ Heads marks m) ∧ m.place = place := by
  obtain ⟨gap, first, rest, hgap, hfirst, rfl, hstart, hapart⟩ := h.exists_head
  rw [hapart, hstart, Bool.or_eq_false_iff, Bool.not_eq_eq_eq_not, Bool.not_false,
    List.isEmpty_iff]
  constructor
  · rintro ⟨⟨hedge, rfl⟩, hplace⟩
    exact ⟨first, ⟨hedge, hfirst, rest, rfl⟩, hplace⟩
  · rintro ⟨m, ⟨hedge, hheads⟩, hplace⟩
    obtain ⟨rfl, -, more, heq⟩ := hheads.of_append hgap
    obtain ⟨rfl, -⟩ := List.cons.inj heq
    exact ⟨⟨hedge, rfl⟩, hplace⟩

theorem exists_operand (h : Outline edge marks (p :: pieces)) :
    ∃ (gap : List Mark) (o : Operand) (after : List Mark), (∀ b ∈ gap, b.isBlank) ∧ o.Sound ∧
      marks = gap ++ (o.marks ++ after) ∧ Outline false after pieces ∧
        ∃ (init : List Mark) (last : Mark), o.marks = init ++ [last] ∧ last.isBlank = false ∧
          ∀ m, Heads after m → last.char = ')' ∨ m.char = '(' := by
  cases h with
  | @word _ gap rest after first _ hgap hword hstops hothers =>
      have hsound : (Operand.word first rest).Sound := hword
      have hne : first :: rest ≠ [] := by simp
      have hlast := Operand.isInner_iff.1 (hsound.isInner _ (List.getLast_mem hne))
      refine ⟨gap, .word first rest, after, hgap, hsound, rfl, hothers, _, _,
        (List.dropLast_append_getLast hne).symm, hlast.1, ?_⟩
      rintro m ⟨hm, more, rfl⟩
      obtain hblank | hopen := hstops m more rfl
      · rw [hm] at hblank
        cases hblank
      · exact .inr hopen
  | @group _ gap body after opening closing _ _ hgap hopen hclose hbody hothers =>
      refine ⟨gap, .group opening body closing, after, hgap, ⟨hopen, hclose, hbody.balanced⟩,
        by simp [Operand.marks], hothers, opening :: body, closing, rfl, ?_, ?_⟩
      · rw [Mark.isBlank, hclose]
        decide
      · exact fun m _ => .inl hclose

theorem exists_glued_iff (h : Outline edge marks pieces) {place : Nat} :
    (∃ p ∈ pieces, p.apart = false ∧ p.start = place) ↔
      ∃ m, ((edge = false ∧ Heads marks m) ∨ Glued marks m) ∧ m.place = place := by
  induction pieces generalizing edge marks with
  | nil =>
      have hblank := h.all_isBlank
      simp only [List.not_mem_nil, false_and, exists_false, false_iff]
      rintro ⟨m, ⟨-, hm, rest, rfl⟩ | hglued, -⟩
      · rw [hblank m (by simp)] at hm
        cases hm
      · exact Mark.not_glued_of_blank hblank hglued
  | cons p pieces ih =>
      obtain ⟨gap, o, after, hgap, ho, hmarks, hafter, init, last, hlast, hblank, hsides⟩ :=
        h.exists_operand
      have hglued (m : Mark) : Glued marks m ↔ Heads after m ∨ Glued after m := by
        rw [hmarks, Mark.glued_blanks_append_iff hgap, Mark.glued_append_iff ho.text_balanced]
        constructor
        · rintro (hinner | ⟨hheads, -⟩ | hrest)
          · exact absurd hinner ho.not_glued
          · exact .inl hheads
          · exact .inr hrest
        · rintro (hheads | hrest)
          · exact .inr (.inl ⟨hheads, init, last, hlast, hblank, hsides m hheads⟩)
          · exact .inr (.inr hrest)
      rw [List.exists_mem_cons_iff, h.apart_iff, ih hafter]
      simp only [hglued, true_and, or_and_right, exists_or]

theorem sublist_places (h : Outline edge marks pieces) :
    (pieces.map Piece.start).Sublist (marks.map Mark.place) := by
  induction h with
  | nil => exact List.nil_sublist _
  | @word edge gap rest after first others _ _ _ _ ih =>
      rw [List.map_append, List.map_cons, List.map_cons, List.map_append]
      exact (ih.trans (List.sublist_append_right _ _)).cons_cons _ |>.trans
        (List.sublist_append_right _ _)
  | @group edge gap body after opening closing inside others _ _ _ _ _ _ ih =>
      rw [List.map_append, List.map_cons, List.map_cons, List.map_append, List.map_cons]
      exact ((ih.cons _).trans (List.sublist_append_right _ _)).cons_cons _ |>.trans
        (List.sublist_append_right _ _)

theorem isLeast_of_find? {start : Nat} {t : Text} (h : Outline true (Mark.placed start t) pieces)
    (hfind : pieces.find? (!·.apart) = some p) :
    IsLeast {place | ∃ m, Glued (Mark.placed start t) m ∧ m.place = place} p.start := by
  have hset : {place | ∃ m, Glued (Mark.placed start t) m ∧ m.place = place} =
      {place | ∃ q ∈ pieces, q.apart = false ∧ q.start = place} := by
    ext place
    rw [Set.mem_ofPred_eq, Set.mem_ofPred_eq, h.exists_glued_iff]
    simp
  have hsorted : (pieces.map Piece.start).Pairwise (· < ·) := by
    have hplaces := h.sublist_places
    rw [Mark.map_place_placed] at hplaces
    exact List.Pairwise.sublist hplaces List.pairwise_lt_range'
  obtain ⟨hapart, front, back, rfl, hfront⟩ := List.find?_eq_some_iff_append.1 hfind
  rw [hset]
  refine ⟨⟨p, by simp, by simpa using hapart, rfl⟩, ?_⟩
  rintro place ⟨q, hq, hglued, rfl⟩
  rw [List.map_append, List.map_cons, List.pairwise_append, List.pairwise_cons] at hsorted
  obtain ⟨-, ⟨hback, -⟩, -⟩ := hsorted
  rw [List.mem_append, List.mem_cons] at hq
  obtain hq | rfl | hq := hq
  · simpa [hglued] using hfront q hq
  · exact le_refl _
  · exact (hback _ (List.mem_map_of_mem hq)).le

end Outline

namespace Operand

theorem split_placed {start : Nat} {segment : Text} (beyond : List Mark)
    (h : Text.Balanced segment) :
    (∃ operands, split beyond (Mark.placed start segment) = .ok operands ∧
      Sequence (Mark.placed start segment) operands ∧
        ¬∃ m, Mark.Glued (Mark.placed start segment) m) ∨
    ∃ place, split beyond (Mark.placed start segment) = .error (.missingSeparator place) ∧
      IsLeast {i | ∃ m, Mark.Glued (Mark.placed start segment) m ∧ m.place = i} place := by
  have hbalanced : Text.Balanced (Mark.text (Mark.placed start segment)) := by
    rwa [Mark.text_placed]
  obtain ⟨pieces, hpieces⟩ := exists_outline hbalanced true
  cases hfind : pieces.find? (!·.apart) with
  | none =>
      have happart : ∀ p ∈ pieces, p.apart := by simpa using hfind
      obtain ⟨operands, hsequence, -⟩ := exists_sequence hpieces happart
      refine .inl ⟨operands, split_of_sequence hsequence, hsequence, ?_⟩
      rintro ⟨m, hglued⟩
      obtain ⟨p, hp, hfalse, -⟩ := hpieces.exists_glued_iff.2 ⟨m, .inr hglued, rfl⟩
      rw [happart p hp] at hfalse
      cases hfalse
  | some p =>
      exact .inr ⟨p.start, split_of_glued beyond hpieces (.inl rfl) hfind,
        hpieces.isLeast_of_find? hfind⟩

end Operand

end PrefixIntegral
