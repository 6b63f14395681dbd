import PrefixIntegral.Formula.Fault

namespace PrefixIntegral.Parentheses

def checkFrom (depth : Nat) : List Mark → Except FormulaFault Unit
  | [] => if depth = 0 then .ok () else .error .unclosed
  | m :: rest =>
    if m.char = '(' then checkFrom (depth + 1) rest
    else if m.char = ')' then
      match depth with
      | 0 => .error (.extraClosing m.place)
      | depth + 1 => checkFrom depth rest
    else checkFrom depth rest

/-- Checks that every parenthesis of a text has its match. A text without any counts as one that
is left open. -/
def check (t : Text) : Except FormulaFault Unit :=
  if '(' ∉ t ∧ ')' ∉ t then .error .unclosed else checkFrom 0 (Mark.ofText t)

/-- What follows the opening of a group, cut at the parenthesis that closes it. -/
structure Group where
  body : List Mark
  closing : Mark
  after : List Mark

/-- Cuts a text at the parenthesis that closes the group it starts in, the depth counting the
groups opened since. -/
def closeFrom : Nat → List Mark → Option Group
  | _, [] => none
  | depth, m :: rest =>
    if m.char = ')' then
      match depth with
      | 0 => some ⟨[], m, rest⟩
      | depth + 1 => (closeFrom depth rest).map fun g => { g with body := m :: g.body }
    else
      (closeFrom (if m.char = '(' then depth + 1 else depth) rest).map fun g =>
        { g with body := m :: g.body }

def close? (marks : List Mark) : Option Group := closeFrom 0 marks

theorem closeFrom_eq {depth : Nat} {marks : List Mark} {g : Group}
    (h : closeFrom depth marks = some g) : marks = g.body ++ g.closing :: g.after := by
  induction marks generalizing depth g with
  | nil => simp [closeFrom] at h
  | cons m rest ih =>
    unfold closeFrom at h
    split at h
    · cases depth with
      | zero => cases h; rfl
      | succ depth =>
        obtain ⟨inner, hi, rfl⟩ := Option.map_eq_some_iff.1 h
        simp [← ih hi]
    · obtain ⟨inner, hi, rfl⟩ := Option.map_eq_some_iff.1 h
      simp [← ih hi]

theorem length_body_lt {marks : List Mark} {g : Group} (h : close? marks = some g) :
    g.body.length < marks.length := by
  rw [closeFrom_eq h]
  simp

end PrefixIntegral.Parentheses
