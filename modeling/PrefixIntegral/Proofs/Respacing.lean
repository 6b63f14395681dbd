import Mathlib.Logic.Relation
import PrefixIntegral.Proofs.Spacing

namespace PrefixIntegral

namespace Text

/-- Whether nothing has to be set apart between two parts of a text: one of them is empty, or the
parenthesis of a group stands next to what is inside of the group. -/
def Loose (before after : Text) : Prop :=
  before = [] ∨ before.getLast? = some '(' ∨ after = [] ∨ after.head? = some ')'

/-- Blanks are exchanged for blanks. They come or go only where nothing has to be set apart. -/
inductive Edit : Text → Text → Prop
  | intro {before gap gap' after : Text} : isAllBlank gap → isAllBlank gap' →
      (gap = [] ↔ gap' = []) ∨ Loose before after →
      Edit (before ++ (gap ++ after)) (before ++ (gap' ++ after))

def Respaced : Text → Text → Prop := Relation.ReflTransGen Edit

/-- The characters that are no blanks, each with whether it is set apart from what stands before
it, as the first is already if `apart` says so. -/
def signs (apart : Bool) : Text → List (Char × Bool)
  | [] => []
  | c :: rest =>
    if isBlank c then signs true rest else (c, apart || c == ')') :: signs (c == '(') rest

def setsApart (apart : Bool) : Text → Bool
  | [] => apart
  | c :: rest => setsApart (isBlank c || c == '(') rest

variable {apart : Bool} {gap gap' before after t t' : Text}

theorem signs_append (apart : Bool) (first second : Text) :
    signs apart (first ++ second) = signs apart first ++ signs (setsApart apart first) second := by
  induction first generalizing apart with
  | nil => rfl
  | cons c rest ih =>
      rw [List.cons_append, signs, signs, setsApart]
      cases isBlank c with
      | true => exact ih true
      | false => exact congrArg (_ :: ·) (ih _)

theorem signs_gap (hgap : isAllBlank gap) (rest : Text) :
    signs apart (gap ++ rest) = signs (apart || !gap.isEmpty) rest := by
  induction gap generalizing apart with
  | nil => simp
  | cons b more ih =>
      simp only [isAllBlank, List.all_cons, Bool.and_eq_true] at hgap
      obtain ⟨hb, hmore⟩ := hgap
      rw [List.cons_append, signs, if_pos hb, ih hmore]
      simp

theorem signs_of_blank (hgap : isAllBlank gap) : signs apart gap = [] := by
  have h := @signs_gap apart gap hgap []
  rwa [List.append_nil] at h

theorem isAllBlank_of_signs (h : signs apart t = []) : isAllBlank t := by
  induction t generalizing apart with
  | nil => rfl
  | cons c rest ih =>
      rw [signs] at h
      split at h
      · rename_i hc
        rw [isAllBlank, List.all_cons, hc, Bool.true_and]
        exact ih h
      · cases h

theorem exists_of_signs_cons {c : Char} {flag : Bool} {more : List (Char × Bool)}
    (h : signs apart t = (c, flag) :: more) : ∃ gap rest, isAllBlank gap ∧ t = gap ++ c :: rest ∧
      flag = (apart || !gap.isEmpty || c == ')') ∧ signs (c == '(') rest = more := by
  induction t generalizing apart with
  | nil => cases h
  | cons b rest ih =>
      rw [signs] at h
      split at h
      · rename_i hb
        obtain ⟨gap, behind, hgap, rfl, rfl, hmore⟩ := ih h
        refine ⟨b :: gap, behind, ?_, rfl, by simp, hmore⟩
        rw [isAllBlank, List.all_cons, hb, Bool.true_and]
        exact hgap
      · obtain ⟨hfirst, hmore⟩ := List.cons.inj h
        obtain ⟨rfl, rfl⟩ := Prod.mk.inj hfirst
        exact ⟨[], rest, rfl, rfl, by simp, hmore⟩

theorem setsApart_of_getLast? (h : before.getLast? = some '(') : setsApart apart before = true := by
  induction before generalizing apart with
  | nil => cases h
  | cons c rest ih =>
      rw [setsApart]
      cases rest with
      | nil =>
          obtain rfl : c = '(' := Option.some.inj h
          simp [setsApart]
      | cons next more => exact ih (by simpa using h)

theorem Edit.signs_eq (h : Edit t t') : signs true t = signs true t' := by
  cases h with
  | @intro before gap gap' after hgap hgap' hset =>
      rw [signs_append true before (gap ++ after), signs_append true before (gap' ++ after),
        signs_gap hgap, signs_gap hgap']
      refine congrArg (signs true before ++ ·) ?_
      obtain hsame | rfl | hopen | rfl | hclose := hset
      · have hempty : gap.isEmpty = gap'.isEmpty :=
          Bool.eq_iff_iff.2 (List.isEmpty_iff.trans (hsame.trans List.isEmpty_iff.symm))
        rw [hempty]
      · rfl
      · rw [setsApart_of_getLast? hopen, Bool.true_or, Bool.true_or]
      · rfl
      · cases after with
        | nil => cases hclose
        | cons c rest =>
            obtain rfl : c = ')' := Option.some.inj hclose
            have hblank : isBlank ')' = false := by decide
            simp [signs, hblank]

theorem Respaced.of_signs (hbefore : apart = true → before = [] ∨ before.getLast? = some '(')
    (h : signs apart t = signs apart t') : Respaced (before ++ t) (before ++ t') := by
  generalize hsigns : signs apart t' = all at h
  induction all generalizing apart before t t' with
  | nil =>
      refine .single ?_
      have hedit : Edit (before ++ (t ++ [])) (before ++ (t' ++ [])) :=
        .intro (isAllBlank_of_signs h) (isAllBlank_of_signs hsigns) (.inr (.inr (.inr (.inl rfl))))
      rwa [List.append_nil, List.append_nil] at hedit
  | cons sign more ih =>
      obtain ⟨c, flag⟩ := sign
      obtain ⟨gap, rest, hgap, rfl, hflag, hrest⟩ := exists_of_signs_cons h
      obtain ⟨gap', rest', hgap', rfl, hflag', hrest'⟩ := exists_of_signs_cons hsigns
      have hset : (gap = [] ↔ gap' = []) ∨ Loose before (c :: rest) := by
        cases hapart : apart with
        | true => exact .inr ((hbefore hapart).imp_right .inl)
        | false =>
            by_cases hclose : c = ')'
            · exact .inr (.inr (.inr (.inr (by rw [hclose]; rfl))))
            · rw [hflag', hapart, beq_false_of_ne hclose] at hflag
              have hempty : gap.isEmpty = gap'.isEmpty := by simpa using hflag.symm
              exact .inl (by rw [← List.isEmpty_iff, hempty, List.isEmpty_iff])
      have hedit : Edit (before ++ (gap ++ c :: rest)) (before ++ (gap' ++ c :: rest)) :=
        .intro hgap hgap' hset
      have hlast : (c == '(') = true →
          before ++ gap' ++ [c] = [] ∨ (before ++ gap' ++ [c]).getLast? = some '(' := by
        intro hopen
        exact .inr (by rw [List.getLast?_concat, eq_of_beq hopen])
      have hmore := ih hlast hrest' hrest
      rw [List.append_assoc, List.append_assoc, List.append_assoc, List.append_assoc,
        List.singleton_append, List.singleton_append] at hmore
      exact .head hedit hmore

theorem respaced_iff : Respaced t t' ↔ signs true t = signs true t' := by
  constructor
  · intro h
    induction h with
    | refl => rfl
    | tail _ hedit ih => exact ih.trans hedit.signs_eq
  · intro h
    exact @Respaced.of_signs true [] t t' (fun _ => .inl rfl) h

theorem Respaced.isAllBlank_eq (h : Respaced t t') : isAllBlank t' = isAllBlank t := by
  have hiff (t : Text) : isAllBlank t ↔ signs true t = [] := ⟨signs_of_blank, isAllBlank_of_signs⟩
  rw [Bool.eq_iff_iff, hiff, hiff, respaced_iff.1 h]

def inked (t : Text) : List Nat := ((Mark.ofText t).filter (!·.isBlank)).map Mark.place

/-- Places of two texts at which the same of their characters stands, blanks not counted. -/
def SamePlace (t t' : Text) (place place' : Nat) : Prop :=
  ∃ k : Nat, t.inked[k]? = some place ∧ t'.inked[k]? = some place'

end Text

namespace Ink

def sign (i : Ink) : Char × Bool := (i.mark.char, i.apart)

theorem exists_move {first second : List Ink} (h : first.map sign = second.map sign)
    (hplaces : (first.map (·.mark.place)).Nodup) :
    ∃ shift, second = first.map (move shift) := by
  induction first generalizing second with
  | nil => exact ⟨id, List.map_eq_nil_iff.1 h.symm⟩
  | cons i rest ih =>
      obtain ⟨j, others, rfl, hsign, hothers⟩ := List.map_eq_cons_iff.1 h.symm
      rw [List.map_cons, List.nodup_cons] at hplaces
      obtain ⟨hplace, hrest⟩ := hplaces
      obtain ⟨shift, rfl⟩ := ih hothers.symm hrest
      refine ⟨fun place => if place = i.mark.place then j.mark.place else shift place, ?_⟩
      obtain ⟨hchar, hapart⟩ := Prod.mk.inj hsign
      rw [List.map_cons, List.cons.injEq]
      constructor
      · obtain ⟨⟨place, char⟩, apart⟩ := j
        simp only [move, Mark.move, if_pos, ← hchar, ← hapart]
      · refine List.map_congr_left fun k hk => ?_
        have hne : k.mark.place ≠ i.mark.place := by
          intro heq
          exact hplace (List.mem_map.2 ⟨k, hk, heq⟩)
        simp only [move, Mark.move, if_neg hne]

end Ink

namespace Mark

theorem map_sign_inks (apart : Bool) (marks : List Mark) :
    (inks apart marks).map Ink.sign = Text.signs apart (text marks) := by
  induction marks generalizing apart with
  | nil => rfl
  | cons m rest ih =>
      rw [inks, text_cons, Text.signs, isBlank]
      cases Text.isBlank m.char with
      | true => exact ih true
      | false => exact congrArg (_ :: ·) (ih _)

theorem map_mark_inks (apart : Bool) (marks : List Mark) :
    (inks apart marks).map Ink.mark = marks.filter (!·.isBlank) := by
  induction marks generalizing apart with
  | nil => rfl
  | cons m rest ih =>
      rw [inks, List.filter_cons]
      cases m.isBlank with
      | true => exact ih true
      | false => exact congrArg (m :: ·) (ih _)

theorem map_place_inks (t : Text) : (inks true (ofText t)).map (·.mark.place) = t.inked := by
  rw [Text.inked, ← map_mark_inks true, List.map_map]
  rfl

end Mark

namespace Text

theorem nodup_inked (t : Text) : t.inked.Nodup := by
  have hall : ((Mark.ofText t).map Mark.place).Nodup := by
    rw [Mark.ofText, Mark.map_place_placed]
    exact List.nodup_range'
  exact hall.sublist (List.filter_sublist.map _)

theorem Respaced.exists_move {t t' : Text} (h : Respaced t t') : ∃ shift,
    Mark.inks true (Mark.ofText t') = (Mark.inks true (Mark.ofText t)).map (Ink.move shift) := by
  refine Ink.exists_move ?_ ?_
  · rw [Mark.map_sign_inks, Mark.map_sign_inks, Mark.text_ofText, Mark.text_ofText]
    exact respaced_iff.1 h
  · rw [Mark.map_place_inks]
    exact nodup_inked t

theorem samePlace_of_mem {t t' : Text} {shift : Nat → Nat} {place : Nat}
    (hmove : Mark.inks true (Mark.ofText t') =
      (Mark.inks true (Mark.ofText t)).map (Ink.move shift)) (hplace : place ∈ t.inked) :
    SamePlace t t' place (shift place) := by
  have hinked : t'.inked = t.inked.map shift := by
    rw [← Mark.map_place_inks, ← Mark.map_place_inks, hmove, List.map_map, List.map_map]
    rfl
  obtain ⟨k, hk⟩ := List.mem_iff_getElem?.1 hplace
  exact ⟨k, hk, by rw [hinked, List.getElem?_map, hk]; rfl⟩

end Text

end PrefixIntegral
