import PrefixIntegral.Proofs.Glue

namespace PrefixIntegral

open Grammar (IsWord)
open Operand (Sequence)

namespace Text

/-- A place in a segment, outside of the groups there, at which two characters touch that a blank
should set apart, since the one before closes a group or the one there opens one. -/
structure GluedAt (t : Text) (start stop place : Nat) : Prop where
  after_start : start < place
  before_stop : place < stop
  level : Balanced ((t.take place).drop start)
  touches : ∃ before after, t[place - 1]? = some before ∧ t[place]? = some after ∧
    isBlank before = false ∧ isBlank after = false ∧ (before = ')' ∨ after = '(')

/-- A word, or a whole group from its parenthesis to the one that closes it. -/
def IsWordOrGroup (t : Text) : Prop :=
  IsWord t ∨ ∃ body, Balanced body ∧ t = '(' :: body ++ [')']

/-- What a text has from a place up to another. -/
def slice (t : Text) (start stop : Nat) : Text := (t.take stop).drop start

/-- Operands whose spans cover a segment but for its blanks: spans one after another, with a blank
between any two of them, each of them a word or a whole group. -/
structure Covers (t : Text) (start stop : Nat) (operands : List Operand) : Prop where
  inside : ∀ o ∈ operands, start ≤ o.start ∧ o.start < o.stop ∧ o.stop ≤ stop
  apart : operands.Pairwise fun o later => ∃ place c, o.stop ≤ place ∧ place < later.start ∧
    t[place]? = some c ∧ isBlank c = true
  once : ∀ place c, start ≤ place → place < stop → t[place]? = some c → isBlank c = false →
    operands.countP (fun o => o.start ≤ place && place < o.stop) = 1
  whole : ∀ o ∈ operands, IsWordOrGroup (t.slice o.start o.stop)

theorem getElem?_of_slice {t rest : Text} {start stop : Nat} {c : Char}
    (h : t.slice start stop = c :: rest) : t[start]? = some c := by
  have hfirst : (t.slice start stop)[0]? = some c := by rw [h, List.getElem?_cons_zero]
  rw [slice, List.getElem?_drop, Nat.add_zero, List.getElem?_take] at hfirst
  split at hfirst
  · exact hfirst
  · cases hfirst

theorem IsWordOrGroup.exists_head {t : Text} (h : t.IsWordOrGroup) :
    ∃ c rest, t = c :: rest ∧ isBlank c = false := by
  rcases h with ⟨hne, hword⟩ | ⟨body, -, rfl⟩
  · cases t with
    | nil => exact absurd rfl hne
    | cons c rest => exact ⟨c, rest, rfl, (hword c (by simp)).1⟩
  · exact ⟨'(', body ++ [')'], rfl, by decide⟩

theorem Covers.cons {t : Text} {start stop : Nat} {o : Operand} {others : List Operand}
    (h : t.Covers o.stop stop others) (hstart : start ≤ o.start) (hspan : o.start < o.stop)
    (hstop : o.stop ≤ stop)
    (hgap : ∀ place c, start ≤ place → place < o.start → t[place]? = some c → isBlank c = true)
    (hends : ∀ c, o.stop < stop → t[o.stop]? = some c → isBlank c = true)
    (hwhole : (t.slice o.start o.stop).IsWordOrGroup) : t.Covers start stop (o :: others) := by
  refine ⟨?_, List.pairwise_cons.2 ⟨?_, h.apart⟩, ?_, List.forall_mem_cons.2 ⟨hwhole, h.whole⟩⟩
  · refine List.forall_mem_cons.2 ⟨⟨hstart, hspan, hstop⟩, ?_⟩
    intro later hlater
    have := h.inside later hlater
    omega
  · intro later hlater
    obtain ⟨hfirst, hlast, hinside⟩ := h.inside later hlater
    obtain ⟨d, more, hslice, hd⟩ := (h.whole later hlater).exists_head
    have hhead := getElem?_of_slice hslice
    have hlength : later.start < t.length := by
      rw [List.getElem?_eq_some_iff] at hhead
      exact hhead.1
    have hc := List.getElem?_eq_getElem (show o.stop < t.length by omega)
    have hblank := hends _ (by omega) hc
    refine ⟨o.stop, _, le_refl _, lt_of_le_of_ne hfirst ?_, hc, hblank⟩
    -- What stands at the start of an operand is no blank.
    intro heq
    rw [← heq, hc, Option.some.injEq] at hhead
    rw [hhead, hd] at hblank
    cases hblank
  · intro place c hplace hlast hc hblank
    by_cases hbefore : place < o.start
    · rw [hgap place c hplace hbefore hc] at hblank
      cases hblank
    · rw [List.countP_cons]
      by_cases hafter : place < o.stop
      · have hnone : others.countP (fun o => o.start ≤ place && place < o.stop) = 0 := by
          rw [List.countP_eq_zero]
          intro later hlater
          have := h.inside later hlater
          simp
          omega
        rw [hnone, if_pos (by simp; omega)]
      · rw [h.once place c (by omega) hlast hc hblank, if_neg (by simp; omega)]

end Text

namespace Mark

theorem getElem?_placed (start : Nat) (t : Text) (i : Nat) :
    (placed start t)[i]? = t[i]?.map (⟨start + i, ·⟩) := by
  induction t generalizing start i with
  | nil => rfl
  | cons c rest ih =>
      cases i with
      | zero => rfl
      | succ i => rw [placed, List.getElem?_cons_succ, ih, List.getElem?_cons_succ,
          Nat.add_right_comm, Nat.add_assoc]

section Segment

variable {t : Text} {before marks beyond : List Mark}

theorem getElem?_segment (h : before ++ marks ++ beyond = ofText t) {i : Nat}
    (hi : i < marks.length) : t[before.length + i]? = marks[i]?.map char := by
  have htext := congrArg text h
  rw [text_ofText] at htext
  rw [← htext, text, List.getElem?_map, List.append_assoc, List.getElem?_append_right (by omega),
    Nat.add_sub_cancel_left, List.getElem?_append_left hi]

theorem slice_segment (h : before ++ marks ++ beyond = ofText t) :
    t.slice before.length (before.length + marks.length) = text marks := by
  have htext := congrArg text h
  rw [text_ofText, text_append, text_append] at htext
  rw [Text.slice, ← htext, List.take_left' (by simp), List.drop_left' (by simp)]

theorem isBlank_of_segment (h : before ++ marks ++ beyond = ofText t)
    (hblank : ∀ m ∈ marks, m.isBlank) {i : Nat} {c : Char} (hfirst : before.length ≤ i)
    (hlast : i < before.length + marks.length) (hc : t[i]? = some c) : Text.isBlank c = true := by
  obtain ⟨i, rfl⟩ := Nat.exists_eq_add_of_le hfirst
  rw [getElem?_segment h (by omega)] at hc
  obtain ⟨m, hm, rfl⟩ := Option.map_eq_some_iff.1 hc
  exact hblank m (List.mem_of_getElem? hm)

theorem place_of_segment (h : before ++ marks ++ beyond = ofText t) {i : Nat} {m : Mark}
    (hm : marks[i]? = some m) : m.place = before.length + i := by
  rw [eq_placed_of_append h, getElem?_placed] at hm
  obtain ⟨c, -, rfl⟩ := Option.map_eq_some_iff.1 hm
  rfl

end Segment

theorem gluedAt_iff {t : Text} {before marks beyond : List Mark}
    (h : before ++ marks ++ beyond = ofText t) {place : Nat} :
    t.GluedAt before.length (before.length + marks.length) place ↔
      ∃ m, Glued marks m ∧ m.place = place := by
  constructor
  · rintro ⟨hfirst, hlast, hlevel, c, d, hc, hd, hcblank, hdblank, hsides⟩
    obtain ⟨i, rfl⟩ := Nat.exists_eq_add_of_lt hfirst
    have hi : i + 1 < marks.length := by omega
    rw [Nat.add_sub_cancel, getElem?_segment h (by omega)] at hc
    rw [Nat.add_assoc, getElem?_segment h hi] at hd
    obtain ⟨last, hl, rfl⟩ := Option.map_eq_some_iff.1 hc
    obtain ⟨m, hm, rfl⟩ := Option.map_eq_some_iff.1 hd
    refine ⟨m, ⟨marks.take i, last, marks.drop (i + 2), ?_, ?_, hcblank, hdblank, hsides⟩,
      place_of_segment h hm⟩
    · obtain ⟨_, rfl⟩ := List.getElem?_eq_some_iff.1 hl
      obtain ⟨_, rfl⟩ := List.getElem?_eq_some_iff.1 hm
      rw [← List.drop_eq_getElem_cons, ← List.drop_eq_getElem_cons, List.take_append_drop]
    · have hcut : before ++ marks.take (i + 1) ++ (marks.drop (i + 1) ++ beyond) = ofText t := by
        rw [← h, List.append_assoc, List.append_assoc, ← List.append_assoc (marks.take _),
          List.take_append_drop]
      have hslice := slice_segment hcut
      have hlast : marks.take (i + 1) = marks.take i ++ [last] := by
        rw [List.take_add_one, hl, Option.toList_some]
      rw [List.length_take_of_le (by omega), Text.slice, ← Nat.add_assoc, hlast] at hslice
      rwa [hslice] at hlevel
  · rintro ⟨m, ⟨front, last, back, rfl, hlevel, hlast, hm, hsides⟩, rfl⟩
    have hplace := place_of_segment h (i := front.length + 1) (m := m) (by simp)
    have hcut : before ++ (front ++ [last]) ++ (m :: back ++ beyond) = ofText t := by
      simpa using h
    have hslice := slice_segment hcut
    simp only [List.length_append, List.length_cons, List.length_nil, Nat.zero_add] at hslice
    rw [← hslice, ← hplace] at hlevel
    refine ⟨by omega, by simp; omega, hlevel, last.char, m.char, ?_, ?_, hlast, hm, hsides⟩
    · rw [hplace, ← Nat.add_assoc, Nat.add_sub_cancel, getElem?_segment h (by simp)]
      simp
    · rw [hplace, getElem?_segment h (by simp)]
      simp

end Mark

namespace Operand

theorem marks_ne_nil (o : Operand) : o.marks ≠ [] := by
  cases o <;> simp [marks]

theorem span_of_segment {t : Text} {before beyond : List Mark} {o : Operand}
    (h : before ++ o.marks ++ beyond = Mark.ofText t) :
    o.start = before.length ∧ o.stop = before.length + o.marks.length := by
  cases o with
  | word first rest =>
      have hfirst := Mark.place_of_segment h (i := 0) (m := first) rfl
      exact ⟨hfirst, by rw [stop, hfirst]; simp [marks]; omega⟩
  | group opening body closing =>
      have hfirst := Mark.place_of_segment h (i := 0) (m := opening) rfl
      have hlast := Mark.place_of_segment h (i := body.length + 1) (m := closing) (by simp [marks])
      exact ⟨hfirst, by rw [stop, hlast]; simp [marks]; omega⟩

theorem Sound.isWordOrGroup {o : Operand} (h : o.Sound) : o.text.IsWordOrGroup := by
  cases o with
  | word first rest => exact .inl h
  | group opening body closing =>
      obtain ⟨hopen, hclose, hbody⟩ := h
      exact .inr ⟨Mark.text body, hbody, by simp [text, marks, hopen, hclose]⟩

theorem covers_of_sequence {t : Text} {before marks beyond : List Mark} {operands : List Operand}
    (hsequence : Sequence marks operands) (h : before ++ marks ++ beyond = Mark.ofText t) :
    t.Covers before.length (before.length + marks.length) operands := by
  induction hsequence generalizing before with
  | @nil gap hgap =>
      refine ⟨by simp, .nil, ?_, by simp⟩
      intro place c hstart hstop hc hblank
      rw [Mark.isBlank_of_segment h hgap hstart hstop hc] at hblank
      cases hblank
  | @cons gap rest o others hgap ho hends _ ih =>
      have hmarks : before ++ gap ++ o.marks ++ (rest ++ beyond) = Mark.ofText t := by
        simpa using h
      obtain ⟨hstart, hstop⟩ := span_of_segment hmarks
      have hlength := List.length_pos_iff.2 o.marks_ne_nil
      rw [List.length_append] at hstart hstop
      have hothers := @ih (before ++ gap ++ o.marks) (by simpa using h)
      simp only [List.length_append] at hothers ⊢
      rw [← hstop] at hothers
      have hall : before.length + (gap.length + o.marks.length + rest.length) =
          o.stop + rest.length := by omega
      rw [hall]
      refine hothers.cons (by omega) (by omega) (by omega) ?_ ?_ ?_
      · intro place c hplace hbefore hc
        have hgaps : before ++ gap ++ (o.marks ++ rest ++ beyond) = Mark.ofText t := by
          simpa using h
        exact Mark.isBlank_of_segment hgaps hgap hplace (by omega) hc
      · intro c hlast hc
        have hrest : before ++ gap ++ o.marks ++ rest ++ beyond = Mark.ofText t := by
          simpa using h
        have hnext := Mark.getElem?_segment hrest (i := 0) (by omega)
        rw [Nat.add_zero, List.length_append, List.length_append, ← hstop, hc] at hnext
        obtain ⟨m, hm, rfl⟩ := Option.map_eq_some_iff.1 hnext.symm
        cases rest with
        | nil => cases hm
        | cons next more => exact hends m more (by simpa using hm)
      · have hslice := Mark.slice_segment hmarks
        rw [List.length_append, ← hstop, ← hstart] at hslice
        rw [hslice]
        exact ho.isWordOrGroup

def splitBetween (t : Text) (start stop : Nat) : Except FormulaFault (List Operand) :=
  split ((Mark.ofText t).drop stop) (((Mark.ofText t).take stop).drop start)

/-- A balanced segment with nothing glued in it is split into operands that cover it, and any other
is refused at the first place where something is. -/
theorem splitBetween_cases (before segment beyond : Text) (h : Text.Balanced segment) :
    let t := before ++ segment ++ beyond
    let start := before.length
    let stop := before.length + segment.length
    (∃ operands, splitBetween t start stop = .ok operands ∧ t.Covers start stop operands ∧
      ¬∃ place, t.GluedAt start stop place) ∨
    ∃ place, splitBetween t start stop = .error (.missingSeparator place) ∧
      IsLeast {i | t.GluedAt start stop i} place := by
  intro t start stop
  have hmarks : Mark.placed 0 before ++ Mark.placed start segment ++ Mark.placed stop beyond =
      Mark.ofText t := by
    rw [Mark.ofText, Mark.placed_append, Mark.placed_append, List.length_append, Nat.zero_add,
      Nat.zero_add]
  have hstart : (Mark.placed 0 before).length = start := Mark.length_placed _ _
  have hstop : start + (Mark.placed start segment).length = stop := by rw [Mark.length_placed]
  have hglued : {i | t.GluedAt start stop i} =
      {i | ∃ m, Mark.Glued (Mark.placed start segment) m ∧ m.place = i} := by
    ext place
    have hiff := @Mark.gluedAt_iff _ _ _ _ hmarks place
    rwa [hstart, hstop] at hiff
  have hsplit : splitBetween t start stop =
      split (Mark.placed stop beyond) (Mark.placed start segment) := by
    rw [splitBetween, ← hmarks, List.drop_left' (by simp [hstart, hstop]),
      List.take_left' (by simp [hstart, hstop]), List.drop_left' hstart]
  rw [hsplit, hglued]
  obtain ⟨operands, hok, hsequence, hnone⟩ | hrefused :=
    @split_placed start segment (Mark.placed stop beyond) h
  · left
    refine ⟨operands, hok, ?_, ?_⟩
    · have hcovers := covers_of_sequence hsequence hmarks
      rwa [hstart, hstop] at hcovers
    · rintro ⟨place, hplace⟩
      obtain ⟨m, hm, -⟩ := hglued.subset hplace
      exact hnone ⟨m, hm⟩
  · exact .inr hrefused

/-- A balanced segment, wherever it stands in a text, is refused at the first place where something
is glued, and is split into operands that cover it if there is none. -/
theorem splitBetween_spans (before segment beyond : Text) (h : Text.Balanced segment) :
    let t := before ++ segment ++ beyond
    let start := before.length
    let stop := before.length + segment.length
    (∀ fault, splitBetween t start stop = .error fault ↔
      ∃ place, fault = .missingSeparator place ∧ IsLeast {i | t.GluedAt start stop i} place) ∧
    ((∃ operands, splitBetween t start stop = .ok operands) ↔
      ¬∃ place, t.GluedAt start stop place) ∧
    ∀ operands, splitBetween t start stop = .ok operands → t.Covers start stop operands := by
  intro t start stop
  obtain ⟨operands, hok, hcovers, hfree⟩ | ⟨place, herror, hleast⟩ :=
    splitBetween_cases before segment beyond h
  · rw [hok]
    refine ⟨fun fault => iff_of_false nofun ?_, iff_of_true ⟨operands, rfl⟩ hfree, ?_⟩
    · rintro ⟨place, -, hleast⟩
      exact hfree ⟨place, hleast.1⟩
    · intro others hothers
      rwa [← Except.ok.inj hothers]
  · rw [herror]
    refine ⟨fun fault => ⟨?_, ?_⟩, iff_of_false nofun ?_, nofun⟩
    · intro hfault
      exact ⟨place, (Except.error.inj hfault).symm, hleast⟩
    · rintro ⟨first, rfl, hfirst⟩
      rw [hfirst.unique hleast]
    · intro hfree
      exact hfree ⟨place, hleast.1⟩

theorem covers_sum : Text.Covers "(+ (x) y)".toList 2 8
    [.group ⟨3, '('⟩ [⟨4, 'x'⟩] ⟨5, ')'⟩, .word ⟨7, 'y'⟩ []] :=
  (splitBetween_spans "(+".toList " (x) y".toList ")".toList rfl).2.2 _ (by cbv)

end Operand

end PrefixIntegral
