import PrefixIntegral.Proofs.Operands

/-!
Outlines of texts. An outline names the words and the groups of a text, level by level, and keeps
of its blanks only what they set apart. Whatever is balanced has one outline.
-/

namespace PrefixIntegral

open Grammar (IsWord)

/-- A word or a group, and whether it is set apart from what stands before it: by blanks, or by
being the first at its level. -/
inductive Piece where
  | word (apart : Bool) (first : Mark) (rest : List Mark)
  | group (apart : Bool) (opening : Mark) (inside : List Piece) (closing : Mark)

namespace Piece

@[elab_as_elim, induction_eliminator]
theorem induction {motive : Piece → Prop}
    (word : ∀ apart first rest, motive (.word apart first rest))
    (group : ∀ apart opening inside closing, (∀ p ∈ inside, motive p) →
      motive (.group apart opening inside closing)) : ∀ p, motive p
  | .word apart first rest => word apart first rest
  | .group apart opening inside closing =>
    group apart opening inside closing fun p _ => induction word group p

def apart : Piece → Bool
  | word apart _ _ | group apart _ _ _ => apart

def start : Piece → Nat
  | word _ first _ => first.place
  | group _ opening _ _ => opening.place

end Piece

/-- The pieces that marks are made of, at one level and inside of its groups. The marks stand at the
edge of their level, or right after another piece of it. -/
inductive Outline : Bool → List Mark → List Piece → Prop
  | nil {edge : Bool} {gap : List Mark} : (∀ m ∈ gap, m.isBlank) → Outline edge gap []
  | word {edge : Bool} {gap rest after : List Mark} {first : Mark} {others : List Piece} :
      (∀ m ∈ gap, m.isBlank) → IsWord (Mark.text (first :: rest)) → Operand.StopsWord after →
      Outline false after others →
      Outline edge (gap ++ first :: (rest ++ after))
        (.word (edge || !gap.isEmpty) first rest :: others)
  | group {edge : Bool} {gap body after : List Mark} {opening closing : Mark}
      {inside others : List Piece} : (∀ m ∈ gap, m.isBlank) → opening.char = '(' →
      closing.char = ')' → Outline true body inside → Outline false after others →
      Outline edge (gap ++ opening :: (body ++ closing :: after))
        (.group (edge || !gap.isEmpty) opening inside closing :: others)

namespace Parentheses

theorem exists_closeFrom {depth : Nat} {marks : List Mark}
    (h : Text.depthAfter? (depth + 1) (Mark.text marks) = some 0) :
    ∃ g, closeFrom depth marks = some g := by
  induction marks generalizing depth with
  | nil => cases h
  | cons m rest ih =>
      rw [closeFrom_cons]
      cases hnext : Text.nextDepth? depth m.char with
      | none => exact ⟨_, rfl⟩
      | some next =>
          rw [Mark.text_cons, Text.depthAfter?, Text.nextDepth?_add hnext 1] at h
          obtain ⟨g, hg⟩ := ih h
          exact ⟨_, congrArg (Option.map _) hg⟩

theorem close_unique {body after body' after' : List Mark} {closing closing' : Mark}
    (hclose : closing.char = ')') (hclose' : closing'.char = ')')
    (hbody : Text.Balanced (Mark.text body)) (hbody' : Text.Balanced (Mark.text body'))
    (h : body ++ closing :: after = body' ++ closing' :: after') :
    body = body' ∧ closing = closing' ∧ after = after' := by
  have hg : close? (body ++ closing :: after) = some ⟨body, closing, after⟩ :=
    close?_iff.2 ⟨rfl, hclose, hbody⟩
  have hg' : close? (body ++ closing :: after) = some ⟨body', closing', after'⟩ :=
    close?_iff.2 ⟨h, hclose', hbody'⟩
  rw [hg, Option.some.injEq, Group.mk.injEq] at hg'
  exact hg'

end Parentheses

namespace Outline

variable {edge : Bool} {marks : List Mark} {pieces : List Piece}

theorem balanced (h : Outline edge marks pieces) : Text.Balanced (Mark.text marks) := by
  induction h with
  | nil hgap => exact Grammar.balanced_of_isAllBlank (Mark.isAllBlank_text.2 hgap)
  | @word edge gap rest after first others hgap hword _ _ ih =>
      have hfront := Grammar.balanced_of_isAllBlank (Mark.isAllBlank_text.2 hgap)
      rw [← List.cons_append, Mark.text_append, Mark.text_append]
      exact hfront.append (hword.balanced.append ih)
  | @group edge gap body after opening closing inside others hgap hopen hclose _ _ ihbody ih =>
      have hfront := Grammar.balanced_of_isAllBlank (Mark.isAllBlank_text.2 hgap)
      have hgroup := hfront.append (ihbody.group.append ih)
      simpa [hopen, hclose] using hgroup

theorem all_isBlank (h : Outline edge marks []) : ∀ m ∈ marks, m.isBlank := by
  cases h with
  | nil hgap => exact hgap

theorem exists_head {p : Piece} (h : Outline edge marks (p :: pieces)) :
    ∃ gap m rest, (∀ b ∈ gap, b.isBlank) ∧ m.isBlank = false ∧ marks = gap ++ m :: rest ∧
      p.start = m.place ∧ p.apart = (edge || !gap.isEmpty) := by
  cases h with
  | @word _ gap rest after first _ hgap hword _ _ =>
      have hfirst := (hword.2 first.char (by simp)).1
      exact ⟨gap, first, rest ++ after, hgap, hfirst, rfl, rfl, rfl⟩
  | @group _ gap body after opening closing _ _ hgap hopen _ _ _ =>
      have hfirst := Operand.isBlank_opening hopen
      exact ⟨gap, opening, body ++ closing :: after, hgap, hfirst, rfl, rfl, rfl⟩

theorem gap_unique {gap rest gap' rest' : List Mark} {m m' : Mark} (hgap : ∀ b ∈ gap, b.isBlank)
    (hgap' : ∀ b ∈ gap', b.isBlank) (hm : m.isBlank = false) (hm' : m'.isBlank = false)
    (h : gap ++ m :: rest = gap' ++ m' :: rest') : gap = gap' ∧ m = m' ∧ rest = rest' := by
  have hskip := congrArg Mark.skipBlanks h
  rw [Mark.skipBlanks_append hgap, Mark.skipBlanks_append hgap', Mark.skipBlanks_cons_of_not hm,
    Mark.skipBlanks_cons_of_not hm'] at hskip
  rw [hskip] at h
  obtain ⟨hfirst, hrest⟩ := List.cons.inj hskip
  exact ⟨List.append_cancel_right h, hfirst, hrest⟩

theorem unique {second : List Piece} (h : Outline edge marks pieces)
    (hsecond : Outline edge marks second) : pieces = second := by
  induction h generalizing second with
  | @nil edge gap hgap =>
      cases second with
      | nil => rfl
      | cons p others =>
          obtain ⟨_, m, _, -, hm, rfl, -, -⟩ := hsecond.exists_head
          rw [hgap m (by simp)] at hm
          cases hm
  | @word edge gap rest after first others hgap hword hstops _ ih =>
      have hinner := Operand.Sound.isInner hword
      obtain ⟨hblank, hopen⟩ := Operand.isInner_iff.1 (hinner first (by simp))
      generalize hmarks : gap ++ first :: (rest ++ after) = marks at hsecond
      cases hsecond with
      | nil hgap' =>
          rw [← hmarks] at hgap'
          rw [hgap' first (by simp)] at hblank
          cases hblank
      | @word _ gap' rest' after' first' others' hgap' hword' hstops' hothers' =>
          have hinner' := Operand.Sound.isInner hword'
          have hblank' := (Operand.isInner_iff.1 (hinner' first' (by simp))).1
          obtain ⟨rfl, rfl, hrest⟩ := gap_unique hgap hgap' hblank hblank' hmarks
          obtain ⟨htake, hdrop⟩ :=
            Operand.takeWhile_isInner (List.forall_mem_cons.1 hinner).2 hstops
          obtain ⟨htake', hdrop'⟩ :=
            Operand.takeWhile_isInner (List.forall_mem_cons.1 hinner').2 hstops'
          rw [← hrest] at htake' hdrop'
          obtain rfl : rest = rest' := htake.symm.trans htake'
          obtain rfl : after = after' := hdrop.symm.trans hdrop'
          rw [ih hothers']
      | @group _ gap' _ _ opening _ _ _ hgap' hopen' _ _ _ =>
          have hblank' := Operand.isBlank_opening hopen'
          obtain ⟨-, rfl, -⟩ := gap_unique hgap hgap' hblank hblank' hmarks
          exact absurd hopen' hopen
  | @group edge gap body after opening closing inside others hgap hopen hclose hbody _ ihbody ih =>
      have hblank := Operand.isBlank_opening hopen
      generalize hmarks : gap ++ opening :: (body ++ closing :: after) = marks at hsecond
      cases hsecond with
      | nil hgap' =>
          rw [← hmarks] at hgap'
          rw [hgap' opening (by simp)] at hblank
          cases hblank
      | @word _ gap' rest' after' first' others' hgap' hword' _ _ =>
          obtain ⟨hblank', hopen'⟩ :=
            Operand.isInner_iff.1 (Operand.Sound.isInner hword' first' (by simp))
          obtain ⟨-, rfl, -⟩ := gap_unique hgap hgap' hblank hblank' hmarks
          exact absurd hopen hopen'
      | @group _ gap' body' after' opening' closing' inside' others' hgap' hopen' hclose' hbody'
          hothers' =>
          have hblank' := Operand.isBlank_opening hopen'
          obtain ⟨rfl, rfl, hrest⟩ := gap_unique hgap hgap' hblank hblank' hmarks
          obtain ⟨rfl, rfl, rfl⟩ :=
            Parentheses.close_unique hclose hclose' hbody.balanced hbody'.balanced hrest
          rw [ihbody hbody', ih hothers']

theorem exists_rest {p : Piece} (h : Outline edge marks (p :: pieces)) :
    ∃ front after, marks = front ++ after ∧ Outline false after pieces ∧
      ∀ {after' : List Mark} {pieces' : List Piece},
        (Operand.StopsWord after → Operand.StopsWord after') → Outline false after' pieces' →
          Outline edge (front ++ after') (p :: pieces') := by
  cases h with
  | @word _ gap rest after first _ hgap hword hstops hothers =>
      refine ⟨gap ++ first :: rest, after, by simp, hothers, ?_⟩
      intro after' pieces' hstill hafter'
      have hpiece : Outline edge _ _ := .word hgap hword (hstill hstops) hafter'
      simpa using hpiece
  | @group _ gap body after opening closing _ _ hgap hopen hclose hbody hothers =>
      refine ⟨gap ++ opening :: (body ++ [closing]), after, by simp, hothers, ?_⟩
      intro after' pieces' _ hafter'
      have hpiece : Outline edge _ _ := .group hgap hopen hclose hbody hafter'
      simpa using hpiece

theorem exists_append_group (h : Outline edge marks pieces) : ∃ apart, ∀ {opening closing : Mark}
    {body after : List Mark} {inside others : List Piece}, opening.char = '(' →
      closing.char = ')' → Outline true body inside → Outline false after others →
        Outline edge (marks ++ opening :: (body ++ closing :: after))
          (pieces ++ .group apart opening inside closing :: others) := by
  induction pieces generalizing edge marks with
  | nil =>
      refine ⟨edge || !marks.isEmpty, ?_⟩
      intro opening closing body after inside others hopen hclose hbody hafter
      exact .group h.all_isBlank hopen hclose hbody hafter
  | cons p more ih =>
      obtain ⟨front, rest, rfl, hrest, hput⟩ := h.exists_rest
      obtain ⟨apart, hgroup⟩ := ih hrest
      refine ⟨apart, ?_⟩
      intro opening closing body after inside others hopen hclose hbody hafter
      rw [List.append_assoc]
      exact hput (·.append hopen) (hgroup hopen hclose hbody hafter)

end Outline

theorem Mark.balanced_of_gap {gap rest : List Mark} (hgap : ∀ m ∈ gap, m.isBlank)
    (h : Text.Balanced (Mark.text (gap ++ rest))) : Text.Balanced (Mark.text rest) := by
  rw [Mark.text_append] at h
  exact (Grammar.balanced_of_isAllBlank (Mark.isAllBlank_text.2 hgap)).of_append h

theorem exists_outline {marks : List Mark} (h : Text.Balanced (Mark.text marks)) (edge : Bool) :
    ∃ pieces, Outline edge marks pieces := by
  induction hlength : marks.length using Nat.strongRecOn generalizing marks edge with
  | _ length ih =>
      cases hskip : Mark.skipBlanks marks with
      | nil => exact ⟨[], .nil (Mark.all_isBlank_of_skipBlanks hskip)⟩
      | cons m rest =>
          have hword (hopen : m.char ≠ '(') :
              (Operand.word m (rest.takeWhile Mark.isInner)).Sound :=
            Operand.sound_word hskip hopen h
          obtain ⟨-, gap, hgap, rfl⟩ := Mark.exists_of_skipBlanks hskip
          have hpiece := Mark.balanced_of_gap hgap h
          rw [List.length_append, List.length_cons] at hlength
          by_cases hopen : m.char = '('
          · have hdeep : Text.depthAfter? 1 (Mark.text rest) = some 0 := by
              rwa [Mark.text_cons, Text.Balanced, Text.depthAfter?, Text.nextDepth?,
                if_pos hopen] at hpiece
            obtain ⟨⟨body, closing, after⟩, hg⟩ := Parentheses.exists_closeFrom hdeep
            obtain ⟨hrest, hclose, hbody⟩ := Parentheses.close?_iff.1 hg
            dsimp only at hrest hclose hbody
            subst hrest
            have hafter : Text.Balanced (Mark.text after) := by
              refine hbody.group.of_append ?_
              simpa [hopen, hclose] using hpiece
            rw [List.length_append, List.length_cons] at hlength
            obtain ⟨inside, hinside⟩ := ih body.length (by omega) hbody true rfl
            obtain ⟨others, hothers⟩ := ih after.length (by omega) hafter false rfl
            exact ⟨_, .group hgap hopen hclose hinside hothers⟩
          · have hsound := hword hopen
            have hcut := rest.takeWhile_append_dropWhile (p := Mark.isInner)
            have hafter : Text.Balanced (Mark.text (rest.dropWhile Mark.isInner)) := by
              refine hsound.balanced.of_append ?_
              rwa [← Mark.text_append, List.cons_append, hcut]
            have hle := (List.dropWhile_suffix (l := rest) Mark.isInner).length_le
            obtain ⟨others, hothers⟩ := ih _ (by omega) hafter false rfl
            have houtline : Outline edge _ _ :=
              .word hgap hsound (Operand.stopsWord_dropWhile rest) hothers
            rw [hcut] at houtline
            exact ⟨_, houtline⟩

end PrefixIntegral
