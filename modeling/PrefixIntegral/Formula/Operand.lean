import PrefixIntegral.Formula.Parentheses

/-!
The operands of a group. An operand is a whole group, whatever blanks are inside, or a word; a
blank must stand between an operand and a group next to it.
-/

namespace PrefixIntegral

inductive Operand where
  | word (first : Mark) (rest : List Mark)
  | group (opening : Mark) (body : List Mark) (closing : Mark)

namespace Operand

def start : Operand → Nat
  | word first _ => first.place
  | group opening _ _ => opening.place

def stop : Operand → Nat
  | word first rest => first.place + rest.length + 1
  | group _ _ closing => closing.place + 1

def size : Operand → Nat
  | word _ rest => rest.length + 1
  | group _ body _ => body.length + 2

/-- Splits a segment into its operands. A group is closed by its own parenthesis even where that
stands in the text beyond the segment. -/
def split (beyond segment : List Mark) : Except FormulaFault (List Operand) :=
  match h : Mark.skipBlanks segment with
  | [] => .ok []
  | m :: rest =>
    have hlen : rest.length < segment.length := by
      have := Mark.length_skipBlanks_le segment
      rw [h] at this
      exact this
    if m.char = '(' then
      match Parentheses.close? (rest ++ beyond) with
      | none => .error .unclosed
      | some g =>
        match hnext : rest.drop (g.body.length + 1) with
        | [] => .ok [.group m g.body g.closing]
        | next :: more =>
          if next.isBlank then
            (split beyond more).map (.group m g.body g.closing :: ·)
          else .error (.missingSeparator next.place)
    else
      match hnext : rest.dropWhile Mark.isInner with
      | [] => .ok [.word m (rest.takeWhile Mark.isInner)]
      | next :: more =>
        if next.char = '(' then .error (.missingSeparator next.place)
        else (split beyond more).map (.word m (rest.takeWhile Mark.isInner) :: ·)
  termination_by segment.length
  decreasing_by
    · have := congrArg List.length hnext
      simp only [List.length_drop, List.length_cons] at this
      omega
    · have := (List.dropWhile_suffix (l := rest) Mark.isInner).length_le
      rw [hnext] at this
      simp only [List.length_cons] at this
      omega

end Operand

end PrefixIntegral
