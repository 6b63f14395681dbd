import PrefixIntegral.Proofs.Spacing

namespace PrefixIntegral

open Operand (StopsWord)

namespace Piece

/-- Before it has found anything, the walk through the pieces comes to the group that opens with a
mark and has the given pieces inside. -/
inductive Meets (symbol : Text) : List Piece → Mark → List Piece → Prop
  | here {apart : Bool} {opening closing : Mark} {inside others : List Piece} :
      Meets symbol (.group apart opening inside closing :: others) opening inside
  | inside {apart : Bool} {opening closing met : Mark} {inside others within : List Piece} :
      levelFlaws inside = [] → Meets symbol inside.tail met within →
      Meets symbol (.group apart opening inside closing :: others) met within
  | later {p : Piece} {others within : List Piece} {met : Mark} : p.findings symbol = [] →
      Meets symbol others met within → Meets symbol (p :: others) met within

variable {symbol : Text} {pieces within : List Piece} {met : Mark} {flaw : Flaw}

theorem Meets.head?_findingsOfAll (h : Meets symbol pieces met within)
    (hflaw : (levelFlaws within).head? = some flaw) :
    (findingsOfAll symbol pieces).head? = some (.level met.place flaw) := by
  induction h with
  | here =>
      rw [findingsOfAll, findings_group, List.append_assoc, List.head?_append, List.head?_map,
        hflaw]
      rfl
  | inside hlevel _ ih =>
      rw [findingsOfAll, findings_group, hlevel, List.map_nil, List.nil_append, List.head?_append,
        ih hflaw]
      rfl
  | later hp _ ih => rw [findingsOfAll, hp, List.nil_append, ih hflaw]

/-- The walk comes to a group that opens at a place and has a flaw, its first one. -/
def MeetsFlaw (symbol : Text) (pieces : List Piece) (place : Nat) (flaw : Flaw) : Prop :=
  ∃ met within, Meets symbol pieces met within ∧ met.place = place ∧
    (levelFlaws within).head? = some flaw

variable {place : Nat}

theorem meetsFlaw_of_operands {operands : List Piece}
    (h : ∀ p ∈ operands, ∀ others, (p.findings symbol).head? = some (.level place flaw) →
      MeetsFlaw symbol (p :: others) place flaw)
    (hhead : (findingsOfAll symbol operands).head? = some (.level place flaw)) :
    MeetsFlaw symbol operands place flaw := by
  induction operands with
  | nil => cases hhead
  | cons p rest ih =>
      obtain ⟨hp, hrest⟩ := List.forall_mem_cons.1 h
      rw [findingsOfAll, List.head?_append] at hhead
      cases hfound : p.findings symbol with
      | cons finding more =>
          rw [hfound] at hhead
          exact hp rest (by rw [hfound]; exact hhead)
      | nil =>
          rw [hfound] at hhead
          obtain ⟨met, within, hmeets, hplace, hflaw⟩ := ih hrest hhead
          exact ⟨met, within, .later hfound hmeets, hplace, hflaw⟩

theorem meetsFlaw_of_head? (p : Piece) (others : List Piece)
    (h : (p.findings symbol).head? = some (.level place flaw)) :
    MeetsFlaw symbol (p :: others) place flaw := by
  induction p generalizing others with
  | word apart first rest =>
      rw [findings, leafFindings] at h
      split at h <;> cases h
  | group apart opening inside closing ih =>
      rw [findings_group, List.head?_append, List.head?_map] at h
      cases hlevel : levelFlaws inside with
      | cons found more =>
          rw [hlevel] at h
          cases h
          exact ⟨opening, inside, .here, rfl, by rw [hlevel]; rfl⟩
      | nil =>
          rw [hlevel] at h
          have hoperands : ∀ p ∈ inside.tail, ∀ others,
              (p.findings symbol).head? = some (.level place flaw) →
                MeetsFlaw symbol (p :: others) place flaw := fun p hp others =>
            ih p (List.mem_of_mem_tail hp) others
          obtain ⟨met, within, hmeets, hplace, hflaw⟩ := meetsFlaw_of_operands hoperands h
          exact ⟨met, within, .inside hlevel hmeets, hplace, hflaw⟩

/-- Whether a group is without flaws depends on how its operands are set apart, not on what they
are. -/
theorem levelFlaws_eq_nil_of_apart {operator : Piece} {operands others : List Piece}
    (happart : others.map apart = operands.map apart)
    (h : levelFlaws (operator :: operands) = []) : levelFlaws (operator :: others) = [] := by
  rw [levelFlaws, List.append_eq_nil_iff, List.append_eq_nil_iff] at h ⊢
  obtain ⟨⟨hoperator, hseparators⟩, hcount⟩ := h
  refine ⟨⟨hoperator, ?_⟩, ?_⟩
  · simp only [separatorFlaws, List.map_eq_nil_iff, List.filter_eq_nil_iff, Bool.not_eq_true',
      Bool.not_eq_false] at hseparators ⊢
    have hall : ∀ flag ∈ others.map apart, flag = true := by
      rw [happart]
      exact List.forall_mem_map.2 hseparators
    exact List.forall_mem_map.1 hall
  · have hlength : others.length = operands.length := by simpa using congrArg List.length happart
    cases operator with
    | group => rw [countFlaws]
    | word a first rest => rwa [countFlaws, hlength] at *

theorem levelFlaws_inside (operator : Piece) (before after inside inside' : List Piece)
    (apart : Bool) (opening closing closing' : Mark) :
    levelFlaws (operator :: (before ++ group apart opening inside closing :: after)) =
      levelFlaws (operator :: (before ++ group apart opening inside' closing' :: after)) := by
  have hseparators : separatorFlaws (before ++ group apart opening inside closing :: after) =
      separatorFlaws (before ++ group apart opening inside' closing' :: after) := by
    rw [separatorFlaws, separatorFlaws, List.filter_append, List.filter_append, List.filter_cons,
      List.filter_cons]
    cases apart <;> simp [Piece.apart, start]
  have hcount : countFlaws (before ++ group apart opening inside closing :: after) operator =
      countFlaws (before ++ group apart opening inside' closing' :: after) operator := by
    cases operator with
    | word => simp only [countFlaws, List.length_append, List.length_cons]
    | group => rw [countFlaws, countFlaws]
  rw [levelFlaws, levelFlaws, hseparators, hcount]

/-- What is found first at a group's level in a formula that is one group, the walk finds when it
comes to the group. -/
theorem meetsFlaw_of_formulaFindings
    (h : (formulaFindings symbol pieces).head? = some (.level place flaw)) :
    MeetsFlaw symbol pieces place flaw ∧ pieces.length = 1 := by
  cases pieces with
  | nil => cases h
  | cons p rest =>
      cases p with
      | word => cases h
      | group apart opening inside closing =>
          cases rest with
          | cons next more => cases h
          | nil => exact ⟨meetsFlaw_of_head? _ [] h, rfl⟩

theorem Meets.formulaFindings_eq (h : Meets symbol pieces met within) (hone : pieces.length = 1) :
    formulaFindings symbol pieces = findingsOfAll symbol pieces := by
  obtain ⟨p, rfl⟩ := List.length_eq_one_iff.1 hone
  cases p with
  | group => simp [formulaFindings, findingsOfAll]
  | word =>
      cases h with
      | later _ h => cases h

end Piece

namespace Outline

open Piece (Meets levelFlaws)

variable {edge : Bool} {marks : List Mark} {pieces within : List Piece} {symbol : Text} {met : Mark}

theorem stopsWord_refill {before rest rest' : List Mark} {opening : Mark}
    (hopen : opening.char = '(') (h : StopsWord (before ++ opening :: rest)) :
    StopsWord (before ++ opening :: rest') := by
  refine StopsWord.append ?_ hopen
  rintro m more rfl
  exact h m _ rfl

theorem exists_quoted {apart : Bool} {opening closing : Mark} {inside : List Piece}
    (h : Outline edge marks (.group apart opening inside closing :: pieces)) :
    opening.char = '(' ∧ closing.char = ')' ∧
      ∃ body, opening :: (body ++ [closing]) <:+: marks := by
  cases h with
  | @group _ gap body after _ _ _ _ _ hopen hclose =>
      exact ⟨hopen, hclose, body, gap, after, by simp⟩

/-- A group that the walk comes to may be filled with anything that has an outline, and what comes
after it moved: the walk then comes to the group that it has become. -/
theorem refill (h : Outline edge marks pieces) (hmeets : Meets symbol pieces met within) :
    ∃ before body closing after, marks = before ++ met :: (body ++ closing :: after) ∧
      met.char = '(' ∧ closing.char = ')' ∧ Outline true body within ∧
        ∀ (shift : Nat → Nat) {body' : List Mark} {within' : List Piece},
          Outline true body' within' → ∃ pieces', Meets symbol pieces' met within' ∧
            Outline edge (before ++ met :: (body' ++ closing.move shift ::
              after.map (Mark.move shift))) pieces' ∧
            pieces'.map Piece.apart = pieces.map Piece.apart := by
  have hmoved (shift : Nat → Nat) (others : List Piece) :
      (others.map (Piece.move shift)).map Piece.apart = others.map Piece.apart := by
    rw [List.map_map]
    exact List.map_congr_left fun p _ => p.apart_move shift
  induction hmeets generalizing edge marks with
  | @here apart opening closing within others =>
      cases h with
      | @group _ gap body after _ _ _ _ hgap hopen hclose hbody hafter =>
          refine ⟨gap, body, closing, after, rfl, hopen, hclose, hbody, ?_⟩
          intro shift body' within' hbody'
          refine ⟨_, .here, .group hgap hopen hclose hbody' (hafter.move shift), ?_⟩
          rw [List.map_cons, List.map_cons, hmoved]
          rfl
  | @inside apart opening closing met inside others within hlevel _ ih =>
      cases h with
      | @group _ gap inner after _ _ _ _ hgap hopen hclose hinner hafter =>
          cases inside with
          | nil => cases hlevel
          | cons operator operands =>
              obtain ⟨front, tail, rfl, htail, hput⟩ := hinner.exists_rest
              obtain ⟨before, body, stop, last, rfl, hmet, hend, hwithin, hrefill⟩ := ih htail
              refine ⟨gap ++ opening :: (front ++ before), body, stop, last ++ closing :: after,
                by simp, hmet, hend, hwithin, ?_⟩
              intro shift body' within' hbody'
              obtain ⟨operands', hmeets', houtline', happart'⟩ := hrefill shift hbody'
              have hinner' := hput (stopsWord_refill hmet) houtline'
              have hlevel' := Piece.levelFlaws_eq_nil_of_apart happart' hlevel
              have hclose' : (closing.move shift).char = ')' := hclose
              have hgroup : Outline edge _ _ :=
                .group hgap hopen hclose' hinner' (hafter.move shift)
              refine ⟨_, .inside hlevel' hmeets', by simpa using hgroup, ?_⟩
              rw [List.map_cons, List.map_cons, hmoved]
              rfl
  | @later p others within met hp _ ih =>
      obtain ⟨front, tail, rfl, htail, hput⟩ := h.exists_rest
      obtain ⟨before, body, stop, last, rfl, hmet, hend, hwithin, hrefill⟩ := ih htail
      refine ⟨front ++ before, body, stop, last, by simp, hmet, hend, hwithin, ?_⟩
      intro shift body' within' hbody'
      obtain ⟨others', hmeets', houtline', happart'⟩ := hrefill shift hbody'
      refine ⟨p :: others', .later hp hmeets', ?_, ?_⟩
      · rw [List.append_assoc]
        exact hput (stopsWord_refill hmet) houtline'
      · rw [List.map_cons, List.map_cons, happart']

end Outline

end PrefixIntegral
