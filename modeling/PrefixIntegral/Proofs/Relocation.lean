import PrefixIntegral.Proofs.Findings

namespace PrefixIntegral

namespace Mark

def move (shift : Nat → Nat) (m : Mark) : Mark := ⟨shift m.place, m.char⟩

@[simp] theorem char_move (shift : Nat → Nat) (m : Mark) : (m.move shift).char = m.char := rfl

@[simp] theorem place_move (shift : Nat → Nat) (m : Mark) :
    (m.move shift).place = shift m.place := rfl

@[simp] theorem isBlank_move (shift : Nat → Nat) (m : Mark) :
    (m.move shift).isBlank = m.isBlank := rfl

@[simp] theorem text_map_move (shift : Nat → Nat) (marks : List Mark) :
    text (marks.map (move shift)) = text marks := by
  simp [text]

end Mark

def Malformation.move (shift : Nat → Nat) : Malformation → Malformation
  | undefined => undefined
  | empty => empty
  | noGroup place => noGroup (shift place)
  | trailing place => trailing (shift place)
  | emptyGroup place => emptyGroup (shift place)

def FormulaFault.move (shift : Nat → Nat) : FormulaFault → FormulaFault
  | extraClosing place => extraClosing (shift place)
  | missingSeparator place => missingSeparator (shift place)
  | malformed reason => malformed (reason.move shift)
  | unclosed => unclosed
  | unknownOperator word => unknownOperator word
  | operandCount op actual => operandCount op actual
  | invalidLiteral word => invalidLiteral word
  | notATree fault => notATree fault

def Flaw.move (shift : Nat → Nat) : Flaw → Flaw
  | groupForOperator opening closing => groupForOperator (shift opening) (shift closing)
  | noSeparator place => noSeparator (shift place)
  | empty => empty
  | unknownOperator word => unknownOperator word
  | operandCount op actual => operandCount op actual

def Finding.move (shift : Nat → Nat) : Finding → Finding
  | outside reason => outside (reason.move shift)
  | level opening flaw => level (shift opening) (flaw.move shift)
  | leaf word => leaf word

namespace Piece

mutual

def move (shift : Nat → Nat) : Piece → Piece
  | word apart first rest => word apart (first.move shift) (rest.map (Mark.move shift))
  | group apart opening inside closing =>
    group apart (opening.move shift) (moveAll shift inside) (closing.move shift)

def moveAll (shift : Nat → Nat) : List Piece → List Piece
  | [] => []
  | p :: rest => p.move shift :: moveAll shift rest

end

theorem moveAll_eq_map (shift : Nat → Nat) (pieces : List Piece) :
    moveAll shift pieces = pieces.map (move shift) := by
  induction pieces with
  | nil => rw [moveAll, List.map_nil]
  | cons p rest ih => rw [moveAll, ih, List.map_cons]

theorem findingsOfAll_eq_flatMap (symbol : Text) (pieces : List Piece) :
    findingsOfAll symbol pieces = pieces.flatMap (findings symbol) := by
  induction pieces with
  | nil => rw [findingsOfAll, List.flatMap_nil]
  | cons p rest ih => rw [findingsOfAll, ih, List.flatMap_cons]

variable (shift : Nat → Nat)

theorem apart_move (p : Piece) : (p.move shift).apart = p.apart := by
  cases p <;> simp only [move, apart]

theorem start_move (p : Piece) : (p.move shift).start = shift p.start := by
  cases p <;> simp only [move, start, Mark.place_move]

theorem operatorFlaws_move (p : Piece) :
    (p.move shift).operatorFlaws = p.operatorFlaws.map (Flaw.move shift) := by
  cases p with
  | word apart first rest =>
      rw [move, operatorFlaws, operatorFlaws, ← List.map_cons, Mark.text_map_move]
      cases Operator.ofToken? (Mark.text (first :: rest)) <;> rfl
  | group apart opening inside closing =>
      rw [move, operatorFlaws, operatorFlaws]
      rfl

theorem separatorFlaws_move (operands : List Piece) :
    separatorFlaws (operands.map (move shift)) =
      (separatorFlaws operands).map (Flaw.move shift) := by
  have hapart : (fun p : Piece => !p.apart) ∘ move shift = fun p => !p.apart := by
    funext p
    exact congrArg not (p.apart_move shift)
  rw [separatorFlaws, separatorFlaws, List.filter_map, hapart, List.map_map, List.map_map]
  refine List.map_congr_left fun p _ => ?_
  exact congrArg Flaw.noSeparator (p.start_move shift)

theorem countFlaws_move (p : Piece) (operands : List Piece) :
    (p.move shift).countFlaws (operands.map (move shift)) =
      (p.countFlaws operands).map (Flaw.move shift) := by
  cases p with
  | word apart first rest =>
      rw [move, countFlaws, countFlaws, ← List.map_cons, Mark.text_map_move, List.length_map]
      cases Operator.ofToken? (Mark.text (first :: rest)) with
      | none => rfl
      | some op =>
          dsimp only
          split <;> rfl
  | group apart opening inside closing =>
      rw [move, countFlaws, countFlaws]
      rfl

theorem levelFlaws_move (inside : List Piece) :
    levelFlaws (inside.map (move shift)) = (levelFlaws inside).map (Flaw.move shift) := by
  cases inside with
  | nil => rfl
  | cons operator operands =>
      rw [List.map_cons, levelFlaws, levelFlaws, operatorFlaws_move, separatorFlaws_move,
        countFlaws_move, List.map_append, List.map_append]

theorem findings_move (symbol : Text) (p : Piece) :
    (p.move shift).findings symbol = (p.findings symbol).map (Finding.move shift) := by
  induction p with
  | word apart first rest =>
      rw [move, findings, findings, ← List.map_cons, Mark.text_map_move, leafFindings]
      split <;> rfl
  | group apart opening inside closing ih =>
      have hoperands : ∀ p ∈ inside.tail, (p.move shift).findings symbol =
          (p.findings symbol).map (Finding.move shift) := fun p hp =>
        ih p (List.mem_of_mem_tail hp)
      rw [move, findings_group, findings_group, moveAll_eq_map, levelFlaws_move, ← List.map_tail,
        findingsOfAll_eq_flatMap, findingsOfAll_eq_flatMap, List.map_append, List.map_map,
        List.map_map, List.flatMap_map, List.map_flatMap, List.flatMap_congr hoperands]
      rfl

theorem formulaFindings_move (symbol : Text) (pieces : List Piece) :
    formulaFindings symbol (pieces.map (move shift)) =
      (formulaFindings symbol pieces).map (Finding.move shift) := by
  cases pieces with
  | nil => rfl
  | cons p rest =>
      rw [List.map_cons]
      cases p with
      | word apart first others =>
          rw [move, formulaFindings, formulaFindings]
          rfl
      | group apart opening inside closing =>
          have hgroup := findings_move shift symbol (group apart opening inside closing)
          rw [move] at hgroup
          rw [move, formulaFindings, formulaFindings, hgroup, List.map_append, List.map_map,
            List.map_map]
          refine congrArg (· ++ _) (List.map_congr_left fun piece _ => ?_)
          exact congrArg (fun place => Finding.outside (.trailing place)) (piece.start_move shift)

theorem phrases?_congr {first second : List Piece}
    (h : List.Forall₂ (fun p q => p.phrase? = q.phrase?) first second) :
    phrases? first = phrases? second := by
  induction h with
  | nil => rfl
  | cons hp _ ih => rw [phrases?, phrases?, hp, ih]

theorem phrase?_move (p : Piece) : (p.move shift).phrase? = p.phrase? := by
  induction p with
  | word apart first rest =>
      rw [move, phrase?, phrase?, ← List.map_cons, Mark.text_map_move]
  | group apart opening inside closing ih =>
      cases inside with
      | nil => rw [move, moveAll, phrase?, phrase?] <;> simp
      | cons operator operands =>
          cases operator with
          | group => rw [move, moveAll, move, phrase?, phrase?] <;> simp
          | word _ first rest =>
              have hoperands : phrases? (operands.map (move shift)) = phrases? operands := by
                refine phrases?_congr (List.forall₂_map_left_iff.2 ?_)
                exact List.forall₂_same.2 fun p hp => ih p (List.mem_cons_of_mem _ hp)
              rw [move, moveAll, move, phrase?, phrase?, ← List.map_cons, Mark.text_map_move,
                moveAll_eq_map, hoperands]

end Piece

end PrefixIntegral
