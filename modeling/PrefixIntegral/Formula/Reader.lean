import PrefixIntegral.Formula.Operand
import PrefixIntegral.Tree.Basic

/-!
Reading a formula into a tree. Groups are read from the outside in: a group is checked as a
whole before any of its operands is looked at, and the operands are then read from left to
right, so that the first fault met in that order is the one reported.
-/

namespace PrefixIntegral

namespace Operand

def totalSize : List Operand → Nat
  | [] => 0
  | operand :: rest => operand.size + totalSize rest

theorem totalSize_split_le {segment : List Mark} {operands : List Operand}
    (h : split [] segment = .ok operands) : totalSize operands ≤ segment.length := by
  induction hn : segment.length using Nat.strongRecOn generalizing segment operands with
  | _ n ih =>
    subst hn
    have hskip := Mark.length_skipBlanks_le segment
    unfold split at h
    split at h
    · cases h
      exact Nat.zero_le _
    · rename_i m rest hs
      rw [hs, List.length_cons] at hskip
      split at h
      · split at h
        · cases h
        · rename_i g hg
          rw [List.append_nil] at hg
          have hbody := Parentheses.length_body_lt hg
          split at h
          · cases h
            simp [totalSize, size]
            omega
          · rename_i next more hnext
            have hdrop := congrArg List.length hnext
            simp only [List.length_drop, List.length_cons] at hdrop
            split at h
            · cases hmore : split [] more with
              | error e => rw [hmore] at h; cases h
              | ok others =>
                rw [hmore] at h
                cases h
                have := ih more.length (by omega) hmore rfl
                simp only [totalSize, size] at this ⊢
                omega
            · cases h
      · have hcut := congrArg List.length (List.takeWhile_append_dropWhile (p := Mark.isInner)
          (l := rest))
        rw [List.length_append] at hcut
        split at h
        · cases h
          simp [totalSize, size]
          omega
        · rename_i next more hnext
          rw [hnext, List.length_cons] at hcut
          split at h
          · cases h
          · cases hmore : split [] more with
            | error e => rw [hmore] at h; cases h
            | ok others =>
              rw [hmore] at h
              cases h
              have := ih more.length (by omega) hmore rfl
              simp only [totalSize, size] at this ⊢
              omega

end Operand

namespace Formula

structure Head where
  operator : Operator
  operands : List Mark

/-- Reads the operator of a group, given the place where the group opens and its body. -/
def readHead (opening : Nat) (body : List Mark) : Except FormulaFault Head :=
  match Mark.skipBlanks body with
  | [] => .error (.malformed (.emptyGroup opening))
  | m :: rest =>
    if m.char = '(' then
      match Parentheses.close? rest with
      | none => .error .unclosed
      | some g => .error (.unknownOperator (Mark.text (m :: g.body ++ [g.closing])))
    else
      let word := Mark.text (m :: rest.takeWhile Mark.isInner)
      match Operator.ofToken? word with
      | none => .error (.unknownOperator word)
      | some op =>
        match rest.dropWhile Mark.isInner with
        | [] => .ok ⟨op, []⟩
        | next :: more =>
          if next.char = '(' then .error (.missingSeparator next.place)
          else .ok ⟨op, next :: more⟩

theorem length_readHead_le {opening : Nat} {body : List Mark} {head : Head}
    (h : readHead opening body = .ok head) : head.operands.length ≤ body.length := by
  have hskip := Mark.length_skipBlanks_le body
  unfold readHead at h
  split at h
  · cases h
  · rename_i m rest hs
    rw [hs, List.length_cons] at hskip
    have hdrop := (List.dropWhile_suffix (l := rest) Mark.isInner).length_le
    split at h
    · split at h <;> cases h
    · dsimp only at h
      split at h
      · cases h
      · split at h
        · cases h
          exact Nat.zero_le _
        · rename_i next more hnext
          rw [hnext] at hdrop
          split at h
          · cases h
          · cases h
            show (next :: more).length ≤ body.length
            omega

def readOperands (head : Head) : Except FormulaFault (List Operand) :=
  match Operand.split [] head.operands with
  | .error fault => .error fault
  | .ok operands =>
    if head.operator.arity.accepts operands.length then .ok operands
    else .error (.operandCount head.operator operands.length)

theorem totalSize_readOperands_le {head : Head} {operands : List Operand}
    (h : readOperands head = .ok operands) :
    Operand.totalSize operands ≤ head.operands.length := by
  unfold readOperands at h
  split at h
  · cases h
  · rename_i found hf
    split at h
    · cases h
      exact Operand.totalSize_split_le hf
    · cases h

/-- Reads a word as a leaf: the variable, the circle constant, or a literal. A variable may have
any symbol, so it is tried first. -/
def readLeaf (symbol word : Text) : Except FormulaFault (Node Float) :=
  if word = symbol then .ok .argument
  else if word = Literal.piToken then .ok (.constant Literal.pi)
  else match Literal.read? word with
    | some value => .ok (.constant value)
    | none => .error (.invalidLiteral word)

def places {β : Type} (start : Nat) : List (List β) → List Int
  | [] => []
  | nodes :: rest => (start : Int) :: places (start + nodes.length) rest

mutual

/-- Reads the body of a group that opens at a place of the text. The nodes come in pre-order,
the first of them standing at place `base` of the arena. -/
def readGroup (symbol : Text) (base opening : Nat) (body : List Mark) :
    Except FormulaFault (List (Node Float)) :=
  match hh : readHead opening body with
  | .error fault => .error fault
  | .ok head =>
    match ho : readOperands head with
    | .error fault => .error fault
    | .ok operands =>
      have : Operand.totalSize operands ≤ body.length :=
        Nat.le_trans (totalSize_readOperands_le ho) (length_readHead_le hh)
      match readEach symbol (base + 1) operands with
      | .error fault => .error fault
      | .ok parts => .ok (.operator head.operator (places (base + 1) parts) :: parts.flatten)
  termination_by 2 * body.length + 1

def readEach (symbol : Text) (base : Nat) :
    List Operand → Except FormulaFault (List (List (Node Float)))
  | [] => .ok []
  | operand :: rest =>
    have : Operand.totalSize (operand :: rest) = operand.size + Operand.totalSize rest := rfl
    match operand with
    | .word first inner =>
      have : (Operand.word first inner).size = inner.length + 1 := rfl
      match readLeaf symbol (Mark.text (first :: inner)) with
      | .error fault => .error fault
      | .ok leaf => (readEach symbol (base + 1) rest).map ([leaf] :: ·)
    | .group opening body closing =>
      have : (Operand.group opening body closing).size = body.length + 2 := rfl
      match readGroup symbol base opening.place body with
      | .error fault => .error fault
      | .ok nodes => (readEach symbol (base + nodes.length) rest).map (nodes :: ·)
  termination_by operands => 2 * Operand.totalSize operands

end

/-- The nodes of a formula in pre-order. The formula is one group with nothing but blanks
around it, and its parentheses are checked before anything else. -/
def readNodes (formula symbol : Text) : Except FormulaFault (List (Node Float)) :=
  if Text.isAllBlank formula then .error (.malformed .empty)
  else match Parentheses.check formula with
  | .error fault => .error fault
  | .ok () =>
    match Mark.skipBlanks (Mark.ofText formula) with
    | [] => .error (.malformed .empty)
    | m :: rest =>
      if m.char ≠ '(' then .error (.malformed (.noGroup m.place))
      else match Parentheses.close? rest with
      | none => .error .unclosed
      | some g =>
        match Mark.skipBlanks g.after with
        | next :: _ => .error (.malformed (.trailing next.place))
        | [] => readGroup symbol 0 m.place g.body

def read (formula symbol : Text) : Except FormulaFault (Tree Float) :=
  match readNodes formula symbol with
  | .error fault => .error fault
  | .ok nodes =>
    match Tree.ofNodes nodes.toArray symbol (some formula) with
    | .error fault => .error (.notATree fault)
    | .ok tree => .ok tree

def read? (formula : Option Text) (symbol : Text) : Except FormulaFault (Tree Float) :=
  match formula with
  | none => .error (.malformed .undefined)
  | some text => read text symbol

def defaultSymbol : Text := ['x']

end Formula

end PrefixIntegral
