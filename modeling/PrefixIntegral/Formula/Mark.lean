import PrefixIntegral.Text.Blank

namespace PrefixIntegral

structure Mark where
  place : Nat
  char : Char
  deriving DecidableEq, Repr

namespace Mark

def placed (start : Nat) : Text → List Mark
  | [] => []
  | c :: rest => ⟨start, c⟩ :: placed (start + 1) rest

def ofText (t : Text) : List Mark := placed 0 t

def text (marks : List Mark) : Text := marks.map Mark.char

def isBlank (m : Mark) : Bool := Text.isBlank m.char

/-- Whether a word goes on with the mark: neither a blank nor the opening of a group. -/
def isInner (m : Mark) : Bool := !m.isBlank && m.char != '('

def skipBlanks (marks : List Mark) : List Mark := marks.dropWhile isBlank

theorem length_skipBlanks_le (marks : List Mark) :
    (skipBlanks marks).length ≤ marks.length :=
  (List.dropWhile_suffix isBlank).length_le

end Mark

end PrefixIntegral
