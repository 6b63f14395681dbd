import Mathlib.Order.Bounds.Basic
import PrefixIntegral.Proofs.FirstFinding
import PrefixIntegral.Proofs.Spans

namespace PrefixIntegral

namespace Text

def OverclosedAt (t : Text) (i : Nat) : Prop :=
  i < t.length ∧ (t.take (i + 1)).count '(' < (t.take (i + 1)).count ')'

theorem nextDepth?_eq_some_iff {depth next : Nat} {c : Char} :
    nextDepth? depth c = some next ↔ [c].count ')' ≤ depth + [c].count '(' ∧
      next + [c].count ')' = depth + [c].count '(' := by
  unfold nextDepth?
  split
  · subst c
    simp [eq_comm]
  · split
    · subst c
      split <;> simp <;> omega
    · simp [*, eq_comm]

theorem depthAfter?_eq_some_iff {depth after : Nat} {t : Text} :
    depthAfter? depth t = some after ↔
      (∀ i, (t.take i).count ')' ≤ depth + (t.take i).count '(') ∧
        after + t.count ')' = depth + t.count '(' := by
  induction t generalizing depth with
  | nil => simp [depthAfter?, eq_comm]
  | cons c rest ih =>
      have hcount (x : Char) (u : Text) : (c :: u).count x = u.count x + [c].count x := by
        rw [Nat.add_comm, ← List.count_append, List.singleton_append]
      have hplaces : (∀ i, ((c :: rest).take i).count ')' ≤
          depth + ((c :: rest).take i).count '(') ↔ ∀ i, (rest.take i).count ')' + [c].count ')' ≤
            depth + ((rest.take i).count '(' + [c].count '(') := by
        rw [← Nat.and_forall_add_one, and_iff_right (by simp)]
        exact forall_congr' fun i => by
          rw [List.take_succ_cons, hcount _ (rest.take i), hcount _ (rest.take i)]
      rw [depthAfter?, Option.bind_eq_some_iff, hplaces, hcount _ rest, hcount _ rest]
      simp only [nextDepth?_eq_some_iff, ih]
      constructor
      · rintro ⟨next, ⟨hle, hnext⟩, hrest, hafter⟩
        refine ⟨fun i => ?_, by omega⟩
        have := hrest i
        omega
      · rintro ⟨hrest, hafter⟩
        have hfirst := hrest 0
        rw [List.take_zero, List.count_nil, List.count_nil] at hfirst
        refine ⟨depth + [c].count '(' - [c].count ')', by omega, fun i => ?_, by omega⟩
        have := hrest i
        omega

theorem balanced_iff {t : Text} :
    Balanced t ↔ (∀ i, (t.take i).count ')' ≤ (t.take i).count '(') ∧
      t.count ')' = t.count '(' := by
  rw [Balanced, depthAfter?_eq_some_iff]
  simp only [Nat.zero_add]

theorem not_exists_overclosedAt_iff {t : Text} :
    (¬∃ i, t.OverclosedAt i) ↔ ∀ i, (t.take i).count ')' ≤ (t.take i).count '(' := by
  constructor
  · intro hnone i
    by_contra hlt
    have hpos : 0 < min i t.length := by
      refine Nat.pos_of_ne_zero fun hzero => hlt ?_
      rw [List.take_eq_take_min, hzero, List.take_zero]
      rfl
    refine hnone ⟨min i t.length - 1, by omega, ?_⟩
    rw [Nat.sub_add_cancel hpos, ← List.take_eq_take_min]
    omega
  · rintro h ⟨i, -, hlt⟩
    have := h (i + 1)
    omega

theorem isLeast_overclosedAt_iff {t : Text} {i : Nat} :
    IsLeast {i | t.OverclosedAt i} i ↔ Balanced (t.take i) ∧ t[i]? = some ')' := by
  rw [balanced_iff]
  constructor
  · rintro ⟨⟨hi, hover⟩, hleast⟩
    have hbefore : ∀ j, ((t.take i).take j).count ')' ≤ ((t.take i).take j).count '(' := by
      rw [← not_exists_overclosedAt_iff]
      rintro ⟨j, hj, hlt⟩
      rw [List.length_take] at hj
      rw [List.take_take, min_eq_left (by omega)] at hlt
      have : i ≤ j := hleast ⟨by omega, hlt⟩
      omega
    have hall := hbefore i
    rw [List.take_take, min_self] at hall
    have hc := List.getElem?_eq_getElem hi
    rw [List.take_add_one, hc, Option.toList_some, List.count_append, List.count_append] at hover
    have hclose : t[i] = ')' := by
      by_contra hne
      have hzero : [t[i]].count ')' = 0 := List.count_eq_zero.2 (by simpa [eq_comm] using hne)
      omega
    rw [hclose, List.count_singleton_self] at hover
    rw [hclose] at hc
    exact ⟨⟨hbefore, by omega⟩, hc⟩
  · rintro ⟨⟨hbefore, htotal⟩, hc⟩
    obtain ⟨hi, -⟩ := List.getElem?_eq_some_iff.1 hc
    refine ⟨⟨hi, ?_⟩, ?_⟩
    · rw [List.take_add_one, hc, Option.toList_some, List.count_append, List.count_append, htotal]
      simp
    · rintro j ⟨hj, hlt⟩
      by_contra hlater
      have := hbefore (j + 1)
      rw [List.take_take, min_eq_left (by omega)] at this
      omega

end Text

namespace Parentheses

open Text (nextDepth? depthAfter? depthAfter?_eq_some_iff)

theorem checkFrom_eq_extraClosing_iff {depth i : Nat} {marks : List Mark} :
    checkFrom depth marks = .error (.extraClosing i) ↔
      ∃ g, closeFrom depth marks = some g ∧ g.closing.place = i := by
  induction marks generalizing depth with
  | nil =>
      rw [checkFrom]
      split <;> simp [closeFrom]
  | cons m rest ih =>
      rw [checkFrom_cons, closeFrom_cons]
      cases nextDepth? depth m.char with
      | none => simp
      | some next => simp [ih]

theorem closeFrom_eq_none_iff {depth : Nat} {marks : List Mark} :
    closeFrom depth marks = none ↔ ∃ after, depthAfter? depth (Mark.text marks) = some after := by
  induction marks generalizing depth with
  | nil => simp [closeFrom, depthAfter?]
  | cons m rest ih =>
      rw [closeFrom_cons, Mark.text_cons, depthAfter?]
      cases nextDepth? depth m.char with
      | none => simp
      | some next => simp [ih]

theorem checkFrom_eq_unclosed_iff {depth : Nat} {marks : List Mark} :
    checkFrom depth marks = .error .unclosed ↔
      ∃ left, depthAfter? depth (Mark.text marks) = some (left + 1) := by
  induction marks generalizing depth with
  | nil =>
      rw [checkFrom]
      cases depth <;> simp [depthAfter?]
  | cons m rest ih =>
      rw [checkFrom_cons, Mark.text_cons, depthAfter?]
      cases nextDepth? depth m.char with
      | none => simp
      | some next => simp [ih]

theorem check_eq_extraClosing_iff {t : Text} {i : Nat} :
    check t = .error (.extraClosing i) ↔ IsLeast {i | t.OverclosedAt i} i := by
  rw [Text.isLeast_overclosedAt_iff, check]
  split
  · rename_i hplain
    refine iff_of_false (by rintro ⟨⟩) ?_
    rintro ⟨-, hc⟩
    exact hplain.2 (List.mem_of_getElem? hc)
  · rw [checkFrom_eq_extraClosing_iff]
    constructor
    · rintro ⟨g, hg, rfl⟩
      obtain ⟨hmarks, hclose, hbody⟩ := closeFrom_iff.1 hg
      have htext := congrArg Mark.text hmarks
      rw [Mark.text_ofText, Mark.text_append, Mark.text_cons, hclose] at htext
      rw [Mark.place_of_append hmarks.symm, htext, ← Mark.length_text, List.take_left]
      exact ⟨hbody, by simp⟩
    · rintro ⟨hbody, hc⟩
      have hm : (Mark.ofText t)[i]? = some ⟨i, ')'⟩ := by
        rw [Mark.ofText, Mark.getElem?_placed, hc, Option.map_some, Nat.zero_add]
      obtain ⟨hi, hm⟩ := List.getElem?_eq_some_iff.1 hm
      refine ⟨⟨(Mark.ofText t).take i, ⟨i, ')'⟩, (Mark.ofText t).drop (i + 1)⟩, ?_, rfl⟩
      refine closeFrom_iff.2 ⟨?_, rfl, ?_⟩
      · rw [← hm, ← List.drop_eq_getElem_cons, List.take_append_drop]
      · rwa [Mark.text, List.map_take, ← Mark.text, Mark.text_ofText]

theorem check_eq_unclosed_iff {t : Text} :
    check t = .error .unclosed ↔ (¬∃ i, t.OverclosedAt i) ∧
      (t.count '(' ≠ t.count ')' ∨ ('(' ∉ t ∧ ')' ∉ t)) := by
  rw [Text.not_exists_overclosedAt_iff, check]
  split
  · rename_i hplain
    refine iff_of_true rfl ⟨fun i => ?_, .inr hplain⟩
    rw [List.count_eq_zero_of_not_mem fun hmem => hplain.2 (List.mem_of_mem_take hmem)]
    exact Nat.zero_le _
  · rename_i hsome
    rw [checkFrom_eq_unclosed_iff, Mark.text_ofText, or_iff_left hsome]
    simp only [depthAfter?_eq_some_iff, Nat.zero_add]
    constructor
    · rintro ⟨left, hbefore, htotal⟩
      exact ⟨hbefore, by omega⟩
    · rintro ⟨hbefore, hne⟩
      have hall := hbefore t.length
      rw [List.take_length] at hall
      exact ⟨t.count '(' - t.count ')' - 1, hbefore, by omega⟩

theorem check_eq_ok_iff {t : Text} :
    check t = .ok () ↔ (¬∃ i, t.OverclosedAt i) ∧ t.count '(' = t.count ')' ∧
      ('(' ∈ t ∨ ')' ∈ t) := by
  rw [Text.not_exists_overclosedAt_iff, check]
  split
  · rename_i hplain
    refine iff_of_false (by rintro ⟨⟩) ?_
    rintro ⟨-, -, hsome⟩
    exact hsome.elim hplain.1 hplain.2
  · rename_i hsome
    rw [checkFrom_iff, Mark.text_ofText, ← Text.Balanced, Text.balanced_iff, and_congr_right_iff,
      eq_comm]
    intro _
    refine (and_iff_left ?_).symm
    by_contra hplain
    exact hsome (not_or.1 hplain)

end Parentheses

end PrefixIntegral
